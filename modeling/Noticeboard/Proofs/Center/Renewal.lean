import Noticeboard.Proofs.Center.Responses
import Noticeboard.Proofs.HeadsUp.Later

namespace Noticeboard

namespace Session

theorem config_serve (s : Session) (q : Request) : (s.serve q).2.config = s.config := by
  cases q with
  | post r ranking => exact congrArg Board.config (s.board_post r ranking)
  | remove key => rfl
  | rank ranking => rfl
  | toggleMute key =>
    change (s.toggleMute key).2.config = s.config
    rw [toggleMute_snd]
    rfl
  | isMuted key =>
    change (s.isMuted key).2.config = s.config
    rw [isMuted_snd]
    rfl
  | markSeen keys => rfl
  | refresh =>
    rw [serve]
    cases hrefresh : s.refresh with
    | error err => rfl
    | ok refreshed =>
      obtain ⟨-, -, hs⟩ := refresh_eq_ok hrefresh
      change refreshed.2.config = s.config
      rw [hs]
      rfl
  | reset => rfl

theorem config_after (s : Session) (requests : List Request) :
    (s.after requests).config = s.config := by
  induction requests generalizing s with
  | nil => rfl
  | cons q requests ih => exact (ih (s.serve q).2).trans (s.config_serve q)

end Session

namespace Center

/-- What a call tells: an event leads to an update or a failure, an expiry perhaps to an update,
and a timer perhaps reports. -/
structure Answer where
  result : Except PackageConflict (Option Update) := .ok none
  report : Option Expiry := none
  log : List LogEntry := []

def Answer.later (n : Nat) (a : Answer) : Answer :=
  { a with report := a.report.map (Expiry.later n) }

def answer (c : Center) : Call → Answer
  | .handle now e => { result := (c.handle now e).result.map some, log := (c.handle now e).log }
  | .expire e => { result := .ok (c.expire e).1 }
  | .fire now => { report := (c.headsUp.fire now).1 }

def later (n : Nat) (c : Center) : Center :=
  { c with headsUp := c.headsUp.later n }

/-- The same call with the generations counted from `n` on. Of a report from before there is
nothing left. -/
def Call.since (n : Nat) : Call → Option Call
  | .handle now e => some (.handle now e)
  | .expire e =>
    if n ≤ e.generation then some (.expire { e with generation := e.generation - n }) else none
  | .fire now => some (.fire now)

variable (n : Nat) (c : Center)

theorem session_later : (c.later n).session = c.session :=
  rfl

theorem headsUp_later : (c.later n).headsUp = c.headsUp.later n :=
  rfl

def Applied.later (n : Nat) (a : Applied) : Applied :=
  { a with headsUp := a.headsUp.later n }

theorem apply_later (now : Nat) (e : Event) :
    (c.later n).apply now e = (c.apply now e).later n := by
  cases e with
  | posted r ranking =>
    by_cases h : (c.session.post r ranking).1.headsUp
    · -- Both find the same record, as the generation is no part of the session.
      obtain ⟨stored, hget, happly⟩ := c.apply_posted_of_headsUp now h
      obtain ⟨stored', hget', happly'⟩ := (c.later n).apply_posted_of_headsUp now h
      have hsame : stored' = stored := Option.some.inj (hget'.symm.trans hget)
      rw [happly, happly', hsame, headsUp_later, HeadsUp.present_later, session_later]
      rfl
    · rw [c.apply_posted_of_not_headsUp now h, (c.later n).apply_posted_of_not_headsUp now h]
      rfl
  | removed key =>
    have happly : ∀ c : Center, c.apply now (.removed key) =
        { session := (c.session.remove key).2
          headsUp := (c.headsUp.dismiss key .removed).2
          change := (c.headsUp.dismiss key .removed).1 } := fun _ => rfl
    rw [happly, happly, headsUp_later, HeadsUp.dismiss_later, session_later]
    rfl
  | rankingUpdated ranking =>
    have happly : ∀ c : Center, c.apply now (.rankingUpdated ranking) =
        { session := (c.session.rank ranking).2
          headsUp := (dismissAll ((c.session.rank ranking).1.map (·.key)) .excluded c.headsUp).2
          change := (dismissAll ((c.session.rank ranking).1.map (·.key)) .excluded c.headsUp).1 } :=
      fun _ => rfl
    rw [happly, happly, headsUp_later, HeadsUp.dismissAll_later, session_later]
    rfl
  | markSeen keys => rfl
  | toggleMute key => rfl
  | reset => rfl

theorem handle_later (now : Nat) (e : Event) :
    (c.later n).handle now e =
      { c.handle now e with center := (c.handle now e).center.later n } := by
  have hsession : ((c.apply now e).later n).session = (c.apply now e).session := rfl
  rw [handle, handle, apply_later, hsession]
  cases (c.apply now e).session.refresh with
  | error err => rfl
  | ok refreshed => rfl

theorem since_expire_cases (e : Expiry) :
    e.generation < n ∧ (Call.expire e).since n = none ∨
      ∃ e', e = Expiry.later n e' ∧ (Call.expire e).since n = some (.expire e') := by
  by_cases he : n ≤ e.generation
  · refine .inr ⟨{ e with generation := e.generation - n }, ?_, if_pos he⟩
    rw [Expiry.later, Nat.add_sub_cancel' he]
  · exact .inl ⟨Nat.lt_of_not_le he, if_neg he⟩

theorem expire_later (e : Expiry) :
    (c.later n).expire (e.later n) = ((c.expire e).1, (c.expire e).2.later n) := by
  rw [expire, headsUp_later, HeadsUp.expire_later]
  rfl

variable {n} in
theorem expire_later_of_lt {e : Expiry} (he : e.generation < n) :
    (c.later n).expire e = (none, c.later n) := by
  rw [expire, headsUp_later, HeadsUp.expire_later_of_lt c.headsUp he]
  rfl

theorem call_later (call : Call) :
    (c.later n).answer call = ((call.since n).elim {} c.answer).later n ∧
      (c.later n).next call = ((call.since n).elim c c.next).later n := by
  cases call with
  | handle now e =>
    rw [answer, next, handle_later]
    exact ⟨rfl, rfl⟩
  | expire e =>
    rw [answer, next]
    obtain ⟨hbefore, hsince⟩ | ⟨e', rfl, hsince⟩ := since_expire_cases n e
    · rw [hsince, c.expire_later_of_lt hbefore]
      exact ⟨rfl, rfl⟩
    · rw [hsince, expire_later]
      exact ⟨rfl, rfl⟩
  | fire now =>
    rw [answer, next, headsUp_later, HeadsUp.fire_later]
    exact ⟨rfl, rfl⟩

theorem after_later (calls : List Call) :
    (c.later n).after calls = (c.after (calls.filterMap (·.since n))).later n := by
  induction calls generalizing c with
  | nil => rfl
  | cons call calls ih =>
    rw [after_cons, (c.call_later n call).2, ih]
    cases hcall : call.since n with
    | none => rw [List.filterMap_cons_none hcall, Option.elim_none]
    | some call' => rw [List.filterMap_cons_some hcall, Option.elim_some, after_cons]

structure Belongs (config : Config) (car : Car) (c : Center) : Prop where
  car_eq : c.session.car = car
  config_eq : c.session.config = config
  settings_eq : c.headsUp.settings = config.headsUp

theorem belongs_after (config : Config) (car : Car) (calls : List Call) :
    ((fresh config car).after calls).Belongs config car := by
  refine ⟨?_, ?_, settings_after config car calls⟩
  · rw [session_after]
    exact (Session.sound_after config car _).car_eq
  · rw [session_after]
    exact Session.config_after _ _

variable {c} {config : Config} {car : Car}

theorem Belongs.next_reset (h : c.Belongs config car) (now : Nat) :
    c.next (.handle now .reset) = (fresh config car).later (c.headsUp.generation + 1) := by
  obtain ⟨⟨list, s⟩, hrefresh⟩ := c.session.refresh_reset_ok
  obtain ⟨-, -, hs⟩ := Session.refresh_eq_ok hrefresh
  have hcards : list.cards = [] := c.session.refresh_reset hrefresh
  have hsession : s = Session.new config car := by
    rw [hs, hcards, Session.new, ← h.car_eq, ← h.config_eq]
    rfl
  have hheadsUp : c.headsUp.emptied =
      HeadsUp.later (c.headsUp.generation + 1) { settings := config.headsUp } := by
    rw [HeadsUp.emptied, h.settings_eq]
    rfl
  have hcenter : (c.handle now .reset).center = ⟨s, c.headsUp.emptied⟩ := by
    rw [handle, show (c.apply now .reset).session = c.session.reset from rfl, hrefresh]
    rfl
  rw [Center.next, hcenter, hsession, hheadsUp]
  rfl

theorem ages_next (c : Center) (call : Call) : c.headsUp.Ages (c.next call).headsUp := by
  cases call with
  | handle now e =>
    rw [headsUp_next_handle]
    cases e with
    | posted r ranking =>
      by_cases h : (c.session.post r ranking).1.headsUp
      · obtain ⟨stored, -, happly⟩ := c.apply_posted_of_headsUp now h
        rw [happly]
        exact c.headsUp.ages_present now stored
      · rw [c.apply_posted_of_not_headsUp now h]
        exact .refl c.headsUp
    | removed key => exact c.headsUp.ages_dismiss key .removed
    | rankingUpdated ranking => exact c.headsUp.ages_dismissAll _ .excluded
    | markSeen keys => exact .refl c.headsUp
    | toggleMute key => exact .refl c.headsUp
    | reset => exact c.headsUp.ages_emptied
  | expire e => exact c.headsUp.ages_expire e
  | fire now => exact c.headsUp.ages_fire now

theorem generation_le_after (c : Center) (calls : List Call) :
    c.headsUp.generation ≤ (c.after calls).headsUp.generation :=
  after_induction (P := fun c' => c.headsUp.generation ≤ c'.headsUp.generation) (Nat.le_refl _)
    (fun c' call h => Nat.le_trans h (c'.ages_next call).generation) calls

theorem timer_le_after (config : Config) (car : Car) (calls : List Call) :
    ∀ timer, ((fresh config car).after calls).headsUp.timer = some timer →
      timer.expiry.generation ≤ ((fresh config car).after calls).headsUp.generation := by
  refine after_induction (P := fun c => ∀ timer, c.headsUp.timer = some timer →
    timer.expiry.generation ≤ c.headsUp.generation) ?_ ?_ calls
  · intro timer htimer
    cases htimer
  · intro c call h timer htimer
    have hages := c.ages_next call
    obtain hbefore | hset := hages.timer timer htimer
    · exact Nat.le_trans (h timer hbefore) hages.generation
    · exact hset

/-- After a reset every call is answered as a new center would answer it, with the generations
counted from the reset on, and no timer that was ever set before the reset has any effect: its
report is not applied and changes nothing, and if it is still running it reports nothing. -/
theorem reset_renews (config : Config) (car : Car) (earlier : List Call) (now : Nat) :
    let c := (fresh config car).after (earlier ++ [.handle now .reset])
    let n := c.headsUp.generation
    (∀ calls call, (c.after calls).answer call =
      ((call.since n).elim {}
        ((fresh config car).after (calls.filterMap (·.since n))).answer).later n) ∧
    (∀ calls, c.after calls = ((fresh config car).after (calls.filterMap (·.since n))).later n) ∧
    ∀ before timer, before <+: earlier →
      ((fresh config car).after before).headsUp.timer = some timer →
      (Call.expire timer.expiry).since n = none ∧
      ∀ calls, (c.after calls).expire timer.expiry = (none, c.after calls) ∧
        ∀ t, ({ (c.after calls).headsUp with timer := some timer }.fire t).1 = none := by
  intro c n
  have hreset : c = (fresh config car).later
      (((fresh config car).after earlier).headsUp.generation + 1) := by
    rw [← (belongs_after config car earlier).next_reset now, ← after_concat]
  have hn : n = ((fresh config car).after earlier).headsUp.generation + 1 :=
    congrArg (fun c => c.headsUp.generation) hreset
  rw [← hn] at hreset
  have hafter : ∀ calls, c.after calls =
      ((fresh config car).after (calls.filterMap (·.since n))).later n := by
    intro calls
    rw [hreset]
    exact after_later _ _ calls
  refine ⟨?_, hafter, ?_⟩
  · intro calls call
    rw [hafter, (call_later n _ call).1]
  · rintro before timer ⟨rest, rfl⟩ htimer
    -- The timer is of a generation that was reached before the reset, which began a new one.
    have hset := timer_le_after config car before timer htimer
    have hgrown := ((fresh config car).after before).generation_le_after rest
    rw [← after_append] at hgrown
    have hbefore : timer.expiry.generation < n := by
      rw [hn]
      exact Nat.lt_succ_of_le (Nat.le_trans hset hgrown)
    refine ⟨if_neg (Nat.not_le_of_lt hbefore), ?_⟩
    intro calls
    rw [hafter]
    refine ⟨expire_later_of_lt _ hbefore, ?_⟩
    intro t
    apply HeadsUp.fire_of_stale
    exact Nat.ne_of_lt (Nat.lt_add_right _ hbefore)

def warnedRun : List Call :=
  [.handle 0 (.posted warning none)]

theorem renewed_warnedRun :
    ((fresh .default .default).after warnedRun).headsUp.timer = some ⟨⟨"a", 1⟩, 8000⟩ ∧
      ∀ calls, (((fresh .default .default).after (warnedRun ++ [.handle 0 .reset])).after
          calls).expire ⟨"a", 1⟩ =
        (none, ((fresh .default .default).after (warnedRun ++ [.handle 0 .reset])).after calls) := by
  have htimer : ((fresh .default .default).after warnedRun).headsUp.timer =
      some ⟨⟨"a", 1⟩, 8000⟩ := by decide +kernel
  obtain ⟨-, -, hleft⟩ := reset_renews .default .default warnedRun 0
  obtain ⟨-, hstale⟩ := hleft warnedRun ⟨⟨"a", 1⟩, 8000⟩ (List.prefix_refl _) htimer
  exact ⟨htimer, fun calls => (hstale calls).1⟩

end Center

end Noticeboard
