import Noticeboard.Proofs.HeadsUp.Scene

namespace Noticeboard

namespace HeadsUp

theorem fire_fst {now : Nat} {h : HeadsUp} {e : Expiry} (hreport : (h.fire now).1 = some e) :
    ∃ timer, h.timer = some timer ∧ timer.due ≤ now ∧ timer.expiry = e := by
  obtain hfire | ⟨timer, htimer, hdue, hfire⟩ := fire_cases now h
  · rw [hfire] at hreport
    cases hreport
  · rw [hfire, Option.ite_none_right_eq_some] at hreport
    exact ⟨timer, htimer, hdue, Option.some.inj hreport.2⟩

theorem timer_fire {now : Nat} {h : HeadsUp} {timer : Timer}
    (hkept : (h.fire now).2.timer = some timer) : h.timer = some timer := by
  obtain hfire | ⟨_, -, -, hfire⟩ := fire_cases now h
  · rwa [hfire] at hkept
  · rw [hfire] at hkept
    cases hkept

namespace Scene

variable {settings : HeadsUpSettings} {turns : List Turn} {s : Scene}

def timerFor (s : Scene) (r : Record) : Timer where
  expiry := ⟨r.key, s.place.generation + 1⟩
  due := s.now + s.place.settings.durationMs.toNat

/-- A timer was set by the turn of a run that it names. -/
def SetIn (settings : HeadsUpSettings) (turns : List Turn) (timer : Traced Timer) : Prop :=
  ∃ earlier r, earlier ++ [.present r] <+: turns ∧ timer.origin = earlier.length ∧
    settings.enabled ∧ timer.item = ((fresh settings).after earlier).timerFor r

/-- A report comes from such a timer, which was due. -/
def Ripe (settings : HeadsUpSettings) (turns : List Turn) (now : Nat) (report : Traced Expiry) :
    Prop :=
  ∃ due, due ≤ now ∧ SetIn settings turns ⟨report.origin, ⟨report.item, due⟩⟩

structure Traceable (settings : HeadsUpSettings) (turns : List Turn) (s : Scene) : Prop where
  own : ∀ timer, s.place.timer = some timer → SetIn settings turns ⟨s.origin, timer⟩
  strays : ∀ stray ∈ s.strays, SetIn settings turns stray
  passed : ∀ report ∈ s.passed, Ripe settings turns s.now report
  waiting : ∀ report ∈ s.waiting, Ripe settings turns s.now report
  sent : ∀ report ∈ s.sent, Ripe settings turns s.now report

theorem SetIn.concat {timer : Traced Timer} (h : SetIn settings turns timer) (t : Turn) :
    SetIn settings (turns ++ [t]) timer := by
  obtain ⟨earlier, r, hbegin, horigin, henabled, htimer⟩ := h
  exact ⟨earlier, r, hbegin.trans (List.prefix_append turns [t]), horigin, henabled, htimer⟩

theorem Ripe.concat {now : Nat} {report : Traced Expiry} (h : Ripe settings turns now report)
    (t : Turn) : Ripe settings (turns ++ [t]) now report := by
  obtain ⟨due, hdue, hset⟩ := h
  exact ⟨due, hdue, hset.concat t⟩

theorem Ripe.advance {now : Nat} {report : Traced Expiry} (h : Ripe settings turns now report)
    (ms : Nat) : Ripe settings turns (now + ms) report := by
  obtain ⟨due, hdue, hset⟩ := h
  exact ⟨due, Nat.le_add_right_of_le hdue, hset⟩

namespace Traceable

theorem concat (h : Traceable settings turns s) (t : Turn) :
    Traceable settings (turns ++ [t]) s where
  own timer htimer := (h.own timer htimer).concat t
  strays stray hs := (h.strays stray hs).concat t
  passed report hr := (h.passed report hr).concat t
  waiting report hr := (h.waiting report hr).concat t
  sent report hr := (h.sent report hr).concat t

theorem hold (h : Traceable settings turns s) {place : HeadsUp}
    (hnew : ∀ timer, place.timer = some timer → place.timer ≠ s.place.timer →
      SetIn settings turns ⟨s.turns, timer⟩) :
    Traceable settings turns (s.hold place) where
  own timer htimer := by
    change SetIn settings turns ⟨if place.timer = s.place.timer then s.origin else s.turns, timer⟩
    split
    · rename_i hsame
      exact h.own timer (hsame ▸ htimer)
    · rename_i hother
      exact hnew timer htimer hother
  strays stray hs := by
    rw [Scene.hold, List.mem_append, Option.mem_toList, Option.map_eq_some_iff] at hs
    obtain hs | ⟨timer, htimer, rfl⟩ := hs
    · exact h.strays stray hs
    · exact h.own timer (Option.mem_filter_iff.1 htimer).1
  passed := h.passed
  waiting := h.waiting
  sent := h.sent

theorem hold_emptied (h : Traceable settings turns s) :
    Traceable settings turns (s.hold s.place.emptied) :=
  h.hold fun _ htimer => by cases htimer

theorem deliver (h : Traceable settings turns s) (report : Option (Traced Expiry)) :
    Traceable settings turns (s.deliver report).2 := by
  obtain he | ⟨key, he⟩ := s.deliver_cases report
  · rw [he]
    exact h
  · rw [he]
    exact h.hold_emptied

theorem wake (h : Traceable settings turns s) (origin : Nat) (place : HeadsUp)
    (hset : ∀ timer, place.timer = some timer → SetIn settings turns ⟨origin, timer⟩) :
    Traceable settings turns (s.wake origin place) where
  own := h.own
  strays := h.strays
  passed report hr := by
    rw [Scene.wake, List.mem_append, Option.mem_toList, Option.map_eq_some_iff] at hr
    obtain hr | ⟨e, he, rfl⟩ := hr
    · exact h.passed report hr
    · obtain ⟨timer, htimer, hdue, rfl⟩ := fire_fst he
      exact ⟨timer.due, hdue, hset timer htimer⟩
  waiting := h.waiting
  sent := h.sent

theorem act_present (h : Traceable settings turns ((fresh settings).after turns)) (r : Record) :
    Traceable settings (turns ++ [.present r])
      (((fresh settings).after turns).act (.present r)).2 := by
  have hsettings := settings_after settings turns
  have hturns := turns_after settings turns
  by_cases henabled : settings.enabled
  · rw [act_present_of_enabled _ (by rwa [hsettings])]
    refine (h.concat (.present r)).hold fun timer htimer _ => ?_
    exact ⟨turns, r, List.prefix_rfl, hturns, henabled, (Option.some.inj htimer).symm⟩
  · rw [act_present_of_disabled _ (by rwa [hsettings])]
    exact h.concat (.present r)

theorem act (h : Traceable settings turns s) {t : Turn} (ht : ∀ r, t ≠ .present r) :
    Traceable settings turns (s.act t).2 := by
  cases t with
  | present r => exact absurd rfl (ht r)
  | dismiss key reason =>
    obtain he | he := s.act_dismiss_cases key reason
    · rw [he]
      exact h
    · rw [he]
      exact h.hold_emptied
  | clear => exact h.hold_emptied
  | advance ms =>
    exact ⟨h.own, h.strays, fun report hr => (h.passed report hr).advance ms,
      fun report hr => (h.waiting report hr).advance ms,
      fun report hr => (h.sent report hr).advance ms⟩
  | fire =>
    have hwake := h.wake s.origin s.place h.own
    exact ⟨fun timer htimer => h.own timer (timer_fire htimer), h.strays, hwake.passed, h.waiting,
      h.sent⟩
  | fireStray i =>
    rw [Scene.act]
    split
    · rename_i stray hstray
      have hset := h.strays stray (List.mem_of_getElem? hstray)
      have hwake := h.wake stray.origin { s.place with timer := some stray.item }
        fun timer htimer => Option.some.inj htimer ▸ hset
      refine ⟨h.own, ?_, hwake.passed, h.waiting, h.sent⟩
      intro other hother
      dsimp only at hother
      split at hother
      · exact h.strays other hother
      · exact h.strays other (List.mem_of_mem_eraseIdx hother)
    · exact h
  | report i =>
    have hpassed : ∀ report ∈ s.passed[i]?.toList, Ripe settings turns s.now report := by
      intro report hr
      rw [Option.mem_toList] at hr
      exact h.passed report (List.mem_of_getElem? hr)
    refine ⟨h.own, h.strays, ?_, ?_, ?_⟩
    · exact fun report hr => h.passed report (List.mem_of_mem_eraseIdx hr)
    · exact fun report hr => (List.mem_append.1 hr).elim (h.waiting report) (hpassed report)
    · exact fun report hr => (List.mem_append.1 hr).elim (h.sent report) (hpassed report)
  | take i =>
    have hrest : Traceable settings turns { s with waiting := s.waiting.eraseIdx i } :=
      { h with waiting := fun report hr => h.waiting report (List.mem_of_mem_eraseIdx hr) }
    exact hrest.deliver _
  | takeCopy i => exact h.deliver _

end Traceable

/-- Whatever a timer leads to in a run, it was set by the turn that it names, and reported no
earlier than it was due. -/
theorem traceable_after (settings : HeadsUpSettings) (turns : List Turn) :
    Traceable settings turns ((fresh settings).after turns) := by
  induction turns using List.reverseRecOn with
  | nil => exact ⟨nofun, nofun, nofun, nofun, nofun⟩
  | append_singleton turns t ih =>
    rw [after_concat]
    have hact : Traceable settings (turns ++ [t]) (((fresh settings).after turns).act t).2 := by
      by_cases ht : ∃ r, t = .present r
      · obtain ⟨r, rfl⟩ := ht
        exact ih.act_present r
      · exact (ih.act fun r hr => ht ⟨r, hr⟩).concat t
    exact ⟨hact.own, hact.strays, hact.passed, hact.waiting, hact.sent⟩

/-- A turn of a run presented the record, and none since has changed the place. -/
def LastShown (settings : HeadsUpSettings) (turns earlier : List Turn) (r : Record) : Prop :=
  (((fresh settings).after earlier).step (.present r)).1.isSome ∧
    ∃ later, turns = earlier ++ .present r :: later ∧
      ∀ p ∈ (((fresh settings).after earlier).step (.present r)).2.trace later, Quiet p

theorem step_present (henabled : s.place.settings.enabled) (r : Record) :
    (s.step (.present r)).1 = some (s.place.arrival r.key) ∧
      (s.step (.present r)).2.place = s.place.filled s.now r := by
  rw [step, s.act_present_of_enabled henabled]
  exact ⟨rfl, rfl⟩

theorem LastShown.record {earlier : List Turn} {r : Record}
    (h : LastShown settings turns earlier r) (henabled : settings.enabled) :
    ((fresh settings).after turns).place.record = some r := by
  obtain ⟨-, later, rfl, hquiet⟩ := h
  have hsettings := settings_after settings earlier
  obtain ⟨-, hplace⟩ := ((fresh settings).after earlier).step_present (by rwa [hsettings]) r
  rw [after_append, after_cons, record_after_of_quiet hquiet, hplace]
  rfl

theorem lastShown_iff {earlier : List Turn} {r : Record}
    (hbegin : earlier ++ [.present r] <+: turns) (henabled : settings.enabled) :
    LastShown settings turns earlier r ↔
      ((fresh settings).after turns).place.generation =
        ((fresh settings).after earlier).place.generation + 1 := by
  obtain ⟨later, rfl⟩ := hbegin
  have hsettings := settings_after settings earlier
  obtain ⟨hanswer, hplace⟩ :=
    ((fresh settings).after earlier).step_present (by rwa [hsettings]) r
  have hgeneration := (((fresh settings).after earlier).step (.present r)).2
    |>.generation_after_eq_iff later
  rw [hplace] at hgeneration
  rw [List.append_assoc, List.singleton_append, after_append, after_cons]
  refine Iff.trans ?_ hgeneration.symm
  constructor
  · rintro ⟨-, other, hother, hquiet⟩
    rw [List.append_cancel_left_eq, List.cons.injEq] at hother
    exact hother.2 ▸ hquiet
  · intro hquiet
    exact ⟨by rw [hanswer]; rfl, later, rfl, hquiet⟩

theorem LastShown.begins_turns {earlier : List Turn} {r : Record}
    (h : LastShown settings turns earlier r) : earlier ++ [.present r] <+: turns := by
  obtain ⟨-, later, rfl, -⟩ := h
  exact ⟨later, by rw [List.append_assoc, List.singleton_append]⟩

theorem eq_of_same_turn {a b : List Turn} {r₁ r₂ : Record} (ha : a ++ [.present r₁] <+: turns)
    (hb : b ++ [.present r₂] <+: turns) (hlength : a.length = b.length) : a = b ∧ r₁ = r₂ := by
  have hlengths : (a ++ [Turn.present r₁]).length = (b ++ [Turn.present r₂]).length := by
    rw [List.length_append, List.length_append, hlength]
    rfl
  have hbegin := List.prefix_of_prefix_length_le ha hb (Nat.le_of_eq hlengths)
  obtain ⟨hab, hr⟩ := List.append_inj (hbegin.eq_of_length hlengths) hlength
  cases hr
  exact ⟨hab, rfl⟩

/-- A report takes the record out of the place just if its timer was set by the turn that was the
last to change the place, and then that turn presented the record and the time is over. -/
theorem expire_eq_some_iff (settings : HeadsUpSettings) (turns : List Turn)
    (report : Traced Expiry) (h : report ∈ ((fresh settings).after turns).waiting ∨
      report ∈ ((fresh settings).after turns).sent) :
    let s := (fresh settings).after turns
    (∀ change, (s.place.expire report.item).1 = some change ↔
      ∃ earlier r, LastShown settings turns earlier r ∧ report.origin = earlier.length ∧
        s.place.record = some r ∧
        ((fresh settings).after earlier).now + settings.durationMs.toNat ≤ s.now ∧
        change = .dismissed r.key .timeout) ∧
    ((s.place.expire report.item).1 = none → (s.place.expire report.item).2 = s.place) := by
  intro s
  have htraceable := traceable_after settings turns
  obtain ⟨due, hdue, earlier, r, hbegin, horigin, henabled, htimer⟩ :=
    h.elim (htraceable.waiting report) (htraceable.sent report)
  have hsettings := settings_after settings earlier
  have hitem : report.item = ⟨r.key, ((fresh settings).after earlier).place.generation + 1⟩ :=
    congrArg Timer.expiry htimer
  have htime : due = ((fresh settings).after earlier).now + settings.durationMs.toNat := by
    have hdueAt := congrArg Timer.due htimer
    rwa [timerFor, hsettings] at hdueAt
  have hcurrent : LastShown settings turns earlier r ↔
      s.place.generation = report.item.generation := by
    rw [lastShown_iff hbegin henabled, hitem]
  refine ⟨fun change => ⟨fun hanswer => ?_, ?_⟩, fun hnone => ?_⟩
  · obtain ⟨-, he⟩ | ⟨key, hgeneration, hkey, he⟩ := expire_cases report.item s.place
    · rw [he] at hanswer
      cases hanswer
    · have hshown := hcurrent.2 hgeneration
      have hrecord := hshown.record henabled
      have hkeys : s.place.key? = some r.key := congrArg (Option.map Record.key) hrecord
      have hkeyr : r.key = key := Option.some.inj (hkeys.symm.trans hkey)
      rw [he, ← hkeyr] at hanswer
      exact ⟨earlier, r, hshown, horigin, hrecord, htime ▸ hdue, (Option.some.inj hanswer).symm⟩
  · rintro ⟨other, shown, hshown, hother, hrecord, -, rfl⟩
    -- The number of the turn says which of the turns it was.
    obtain ⟨rfl, rfl⟩ := eq_of_same_turn hshown.begins_turns hbegin (hother.symm.trans horigin)
    have hkey : s.place.key? = some shown.key := congrArg (Option.map Record.key) hrecord
    rw [expire_of_current (hcurrent.1 hshown) hkey]
  · obtain ⟨-, he⟩ | ⟨key, -, -, he⟩ := expire_cases report.item s.place
    · rw [he]
    · rw [he] at hnone
      cases hnone

def alarm : Record where
  id := { key := "a", package := "p", number := 1 }
  category := some .carEmergency
  postTime := ⟨1767340800, 500000000, by decide, by decide, by decide, by decide⟩

/-- The timer has passed its check when the record is posted again, and reports only then. -/
def repostedRun : List Turn :=
  [.present alarm, .advance 8000, .fire, .present alarm, .report 0, .advance 8000, .fire, .report 0]

theorem expire_repostedRun :
    let s := (fresh {}).after repostedRun
    (⟨0, ⟨"a", 1⟩⟩ ∈ s.sent ∧ (s.place.expire ⟨"a", 1⟩).1 = none ∧
      (s.place.expire ⟨"a", 1⟩).2 = s.place) ∧
    (⟨3, ⟨"a", 2⟩⟩ ∈ s.sent ∧ (s.place.expire ⟨"a", 2⟩).1 = some (.dismissed "a" .timeout) ∧
      ∃ earlier r, LastShown {} repostedRun earlier r ∧ earlier.length = 3) := by
  intro s
  have hstale : ⟨0, ⟨"a", 1⟩⟩ ∈ s.sent := by decide +kernel
  have hlive : ⟨3, ⟨"a", 2⟩⟩ ∈ s.sent := by decide +kernel
  have hnone : (s.place.expire ⟨"a", 1⟩).1 = none := by decide +kernel
  have hsome : (s.place.expire ⟨"a", 2⟩).1 = some (.dismissed "a" .timeout) := by decide +kernel
  obtain ⟨-, hidle⟩ := expire_eq_some_iff {} repostedRun ⟨0, ⟨"a", 1⟩⟩ (.inr hstale)
  obtain ⟨hshown, -⟩ := expire_eq_some_iff {} repostedRun ⟨3, ⟨"a", 2⟩⟩ (.inr hlive)
  obtain ⟨earlier, r, hlast, horigin, -⟩ := (hshown _).1 hsome
  exact ⟨⟨hstale, hnone, hidle hnone⟩, hlive, hsome, earlier, r, hlast, horigin.symm⟩

end Scene

end HeadsUp

end Noticeboard
