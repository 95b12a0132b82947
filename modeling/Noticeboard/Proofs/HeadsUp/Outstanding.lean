import Mathlib.Data.List.Perm.Basic
import Noticeboard.Proofs.HeadsUp.Scene

namespace Noticeboard

namespace HeadsUp

/-- The report that has to come for what is visible. -/
def owed (h : HeadsUp) : List Expiry :=
  (h.key?.map fun key => ⟨key, h.generation⟩).toList

theorem generation_of_mem_owed {h : HeadsUp} {e : Expiry} (he : e ∈ h.owed) :
    e.generation = h.generation := by
  rw [owed, Option.mem_toList, Option.map_eq_some_iff] at he
  obtain ⟨key, -, rfl⟩ := he
  rfl

theorem eq_owed_of_perm {h : HeadsUp} {reports : List Expiry} (hperm : reports.Perm h.owed) :
    reports = h.owed := by
  rw [owed] at hperm ⊢
  cases hkey : h.key? with
  | none =>
    rw [hkey] at hperm
    exact List.perm_nil.1 hperm
  | some key =>
    rw [hkey] at hperm
    exact List.perm_singleton.1 hperm

def Turn.isTimely : Turn → Bool
  | .advance _ | .fire | .report _ | .take _ => true
  | _ => false

namespace Scene

variable {settings : HeadsUpSettings} {turns : List Turn} {s : Scene} {key : String}

/-- The reports still to come: that of the timer in the place, those of timers that have passed
their check, and those that wait. -/
def pending (s : Scene) : List Expiry :=
  (s.place.timer.map (·.expiry)).toList ++ s.passed.map (·.item) ++ s.waiting.map (·.item)

def outstanding (s : Scene) : List Expiry :=
  s.pending.filter (·.generation = s.place.generation)

/-- The timer of the place is of its generation, strays are of earlier ones, and no report to come
is of a later one. -/
structure Dated (s : Scene) : Prop where
  own : ∀ timer, s.place.timer = some timer → timer.expiry.generation = s.place.generation
  strays : ∀ stray ∈ s.strays, stray.item.expiry.generation < s.place.generation
  pending : ∀ e ∈ s.pending, e.generation ≤ s.place.generation

structure Tidy (s : Scene) : Prop extends Dated s where
  outstanding : s.outstanding = s.place.owed

theorem Dated.hold (h : s.Dated) {place : HeadsUp}
    (hgeneration : place.generation = s.place.generation + 1)
    (howed : (place.timer.map (·.expiry)).toList = place.owed) : (s.hold place).Tidy := by
  -- Whatever was still to come is of an earlier generation now.
  have hrest : ∀ e ∈ s.passed.map (·.item) ++ s.waiting.map (·.item),
      e.generation < place.generation := by
    intro e he
    have hmem : e ∈ s.pending := by
      rw [Scene.pending, List.append_assoc]
      exact List.mem_append_right _ he
    rw [hgeneration]
    exact Nat.lt_succ_of_le (h.pending e hmem)
  have hpending : (s.hold place).pending =
      place.owed ++ (s.passed.map (·.item) ++ s.waiting.map (·.item)) := by
    rw [← howed, ← List.append_assoc]
    rfl
  refine ⟨⟨?_, ?_, ?_⟩, ?_⟩
  · intro timer htimer
    have hmem : timer.expiry ∈ place.owed := by
      rw [← howed, show place.timer = some timer from htimer]
      exact List.mem_singleton_self _
    exact generation_of_mem_owed hmem
  · intro stray hs
    change stray.item.expiry.generation < place.generation
    rw [Scene.hold, List.mem_append, Option.mem_toList, Option.map_eq_some_iff] at hs
    rw [hgeneration]
    obtain hs | ⟨timer, htimer, rfl⟩ := hs
    · exact Nat.lt_succ_of_lt (h.strays stray hs)
    · exact Nat.lt_succ_of_le (Nat.le_of_eq (h.own timer (Option.mem_filter_iff.1 htimer).1))
  · intro e he
    change e.generation ≤ place.generation
    rw [hpending, List.mem_append] at he
    obtain he | he := he
    · exact Nat.le_of_eq (generation_of_mem_owed he)
    · exact Nat.le_of_lt (hrest e he)
  · change (s.hold place).pending.filter (·.generation = place.generation) = place.owed
    have howed : place.owed.filter (·.generation = place.generation) = place.owed :=
      List.filter_eq_self.2 fun e he => decide_eq_true (generation_of_mem_owed he)
    have hnone : (s.passed.map (·.item) ++ s.waiting.map (·.item)).filter
        (·.generation = place.generation) = [] :=
      List.filter_eq_nil_iff.2 fun e he => by simpa using Nat.ne_of_lt (hrest e he)
    rw [hpending, List.filter_append, howed, hnone, List.append_nil]

theorem Dated.hold_emptied (h : s.Dated) : (s.hold s.place.emptied).Tidy :=
  h.hold rfl rfl

theorem Tidy.of_perm (h : s.Tidy) {s' : Scene} {timer : Option Timer}
    (hplace : s'.place = { s.place with timer := timer })
    (htimer : ∀ t, timer = some t → s.place.timer = some t)
    (hstrays : ∀ stray ∈ s'.strays, stray ∈ s.strays) (hpending : s'.pending.Perm s.pending) :
    s'.Tidy := by
  have hgeneration : s'.place.generation = s.place.generation := by rw [hplace]
  refine ⟨⟨?_, ?_, ?_⟩, ?_⟩
  · intro t ht
    rw [hplace] at ht ⊢
    exact h.own t (htimer t ht)
  · intro stray hs
    rw [hgeneration]
    exact h.strays stray (hstrays stray hs)
  · intro e he
    rw [hgeneration]
    exact h.pending e (hpending.mem_iff.1 he)
  · have howed : s'.place.owed = s.place.owed := by
      rw [hplace]
      rfl
    rw [howed]
    apply eq_owed_of_perm
    rw [← h.outstanding, Scene.outstanding, Scene.outstanding, hgeneration]
    exact hpending.filter _

theorem perm_cons_eraseIdx {α : Type} {l : List α} {i : Nat} {a : α} (h : l[i]? = some a) :
    l.Perm (a :: l.eraseIdx i) := by
  obtain ⟨hi, rfl⟩ := List.getElem?_eq_some_iff.1 h
  exact (List.getElem_cons_eraseIdx_perm hi).symm

theorem Tidy.fire (h : s.Tidy) : (s.act .fire).2.Tidy := by
  rw [act, wake]
  obtain hfire | ⟨timer, htimer, -, hfire⟩ := fire_cases s.now s.place
  · rw [hfire]
    refine h.of_perm rfl (fun _ ht => ht) (fun _ hs => hs) ?_
    rw [Option.map_none, Option.toList_none, List.append_nil]
  · -- The timer of the place finds the generation unchanged.
    rw [hfire, if_pos (h.own timer htimer)]
    refine h.of_perm rfl (fun _ ht => by cases ht) (fun _ hs => hs) ?_
    simp only [pending, htimer, Option.map_none, Option.map_some, Option.toList_none,
      Option.toList_some, List.nil_append, List.map_append, List.map_singleton, List.cons_append]
    exact (List.perm_append_singleton timer.expiry _).append_right _

theorem Tidy.fireStray (h : s.Tidy) (i : Nat) : (s.act (.fireStray i)).2.Tidy := by
  rw [act]
  split
  · rename_i stray hstray
    have hstale : stray.item.expiry.generation ≠ s.place.generation :=
      Nat.ne_of_lt (h.strays stray (List.mem_of_getElem? hstray))
    have hsilent : (HeadsUp.fire s.now { s.place with timer := some stray.item }).1 = none := by
      obtain hfire | ⟨timer, htimer, -, hfire⟩ :=
        fire_cases s.now { s.place with timer := some stray.item }
      · rw [hfire]
      · cases htimer
        rw [hfire]
        exact if_neg hstale
    refine h.of_perm rfl (fun _ ht => ht) ?_ ?_
    · intro other hother
      dsimp only at hother
      split at hother
      · exact hother
      · exact List.mem_of_mem_eraseIdx hother
    · simp only [wake, hsilent, Option.map_none, Option.toList_none, List.append_nil, pending]
      exact .rfl
  · exact h

theorem Tidy.report (h : s.Tidy) (i : Nat) : (s.act (.report i)).2.Tidy := by
  refine h.of_perm rfl (fun _ ht => ht) (fun _ hs => hs) ?_
  simp only [act, pending]
  cases hreport : s.passed[i]? with
  | none =>
    rw [List.eraseIdx_of_length_le (List.getElem?_eq_none_iff.1 hreport), Option.toList_none,
      List.append_nil]
  | some report =>
    have hpassed : (s.passed.map (·.item)).Perm
        (report.item :: (s.passed.eraseIdx i).map (·.item)) :=
      (perm_cons_eraseIdx hreport).map _
    have hwaiting := List.perm_append_singleton report.item (s.waiting.map (·.item))
    rw [Option.toList_some, List.map_append, List.map_singleton, List.append_assoc,
      List.append_assoc]
    refine List.Perm.append_left _ ?_
    exact ((hwaiting.append_left _).trans List.perm_middle).trans (hpassed.append_right _).symm

theorem pending_perm_of_waiting {i : Nat} {report : Traced Expiry}
    (hreport : s.waiting[i]? = some report) :
    s.pending.Perm (report.item :: { s with waiting := s.waiting.eraseIdx i }.pending) := by
  have hwaiting : (s.waiting.map (·.item)).Perm
      (report.item :: (s.waiting.eraseIdx i).map (·.item)) :=
    (perm_cons_eraseIdx hreport).map _
  exact (hwaiting.append_left _).trans List.perm_middle

theorem Tidy.take (h : s.Tidy) (i : Nat) : (s.act (.take i)).2.Tidy := by
  rw [act]
  cases hreport : s.waiting[i]? with
  | none =>
    rw [List.eraseIdx_of_length_le (List.getElem?_eq_none_iff.1 hreport)]
    exact h
  | some report =>
    have hperm := pending_perm_of_waiting hreport
    have hdated : { s with waiting := s.waiting.eraseIdx i }.Dated :=
      ⟨h.own, h.strays, fun e he => h.pending e (hperm.mem_iff.2 (List.mem_cons_of_mem _ he))⟩
    rw [deliver, own]
    obtain ⟨hreason, he⟩ | ⟨key, -, -, he⟩ := expire_cases report.item s.place
    · rw [he]
      change ({ s with waiting := s.waiting.eraseIdx i }.hold s.place).Tidy
      rw [hold_self]
      refine ⟨hdated, eq_owed_of_perm ?_⟩
      have hfilter := hperm.filter (·.generation = s.place.generation)
      rw [show s.pending.filter _ = s.place.owed from h.outstanding] at hfilter
      obtain hstale | hnone := hreason
      · rw [List.filter_cons_of_neg (by simpa using Ne.symm hstale)] at hfilter
        exact hfilter.symm
      · have howed : s.place.owed = [] := by
          rw [owed, hnone]
          rfl
        rw [howed] at hfilter ⊢
        have hsublist := (List.sublist_cons_self report.item
          { s with waiting := s.waiting.eraseIdx i }.pending).filter
            (·.generation = s.place.generation)
        rw [← hfilter.nil_eq, List.sublist_nil] at hsublist
        exact .of_eq hsublist
    · rw [he]
      exact hdated.hold_emptied

theorem Tidy.takeCopy (h : s.Tidy) (i : Nat) : (s.act (.takeCopy i)).2.Tidy := by
  rw [act]
  obtain he | ⟨key, he⟩ := s.deliver_cases s.sent[i]?
  · rw [he]
    exact h
  · rw [he]
    exact h.hold_emptied

theorem Tidy.present (h : s.Tidy) (r : Record) : (s.act (.present r)).2.Tidy := by
  by_cases henabled : s.place.settings.enabled
  · rw [s.act_present_of_enabled henabled]
    exact h.hold rfl rfl
  · rw [s.act_present_of_disabled henabled]
    exact h

theorem Tidy.dismiss (h : s.Tidy) (key : String) (reason : EndReason) :
    (s.act (.dismiss key reason)).2.Tidy := by
  obtain he | he := s.act_dismiss_cases key reason
  · rw [he]
    exact h
  · rw [he]
    exact h.hold_emptied

theorem Tidy.step (h : s.Tidy) (t : Turn) : (s.step t).2.Tidy := by
  have hact : (s.act t).2.Tidy := by
    cases t with
    | present r => exact h.present r
    | dismiss key reason => exact h.dismiss key reason
    | clear => exact h.hold_emptied
    | advance ms => exact ⟨⟨h.own, h.strays, h.pending⟩, h.outstanding⟩
    | fire => exact h.fire
    | fireStray i => exact h.fireStray i
    | report i => exact h.report i
    | take i => exact h.take i
    | takeCopy i => exact h.takeCopy i
  exact ⟨⟨hact.own, hact.strays, hact.pending⟩, hact.outstanding⟩

theorem tidy_after (settings : HeadsUpSettings) (turns : List Turn) :
    ((fresh settings).after turns).Tidy := by
  induction turns using List.reverseRecOn with
  | nil => exact ⟨⟨nofun, nofun, nofun⟩, rfl⟩
  | append_singleton turns t ih =>
    rw [after_concat]
    exact ih.step t

/-- The record of a key can go without anybody's doing, when its time is over. -/
def Ends (s : Scene) (key : String) : Prop :=
  ∃ later t, (∀ u ∈ later ++ [t], u.isTimely) ∧
    ((s.after later).step t).1 = some (.dismissed key .timeout)

theorem Ends.of_step {t : Turn} (ht : t.isTimely) (h : (s.step t).2.Ends key) : s.Ends key := by
  obtain ⟨later, u, htimely, hanswer⟩ := h
  refine ⟨t :: later, u, ?_, hanswer⟩
  rw [List.cons_append, List.forall_mem_cons]
  exact ⟨ht, htimely⟩

theorem ends_of_waiting {report : Traced Expiry} (hkey : s.place.key? = some key)
    (hgeneration : report.item.generation = s.place.generation) (hreport : report ∈ s.waiting) :
    s.Ends key := by
  obtain ⟨i, hi⟩ := List.mem_iff_getElem?.1 hreport
  refine ⟨[], .take i, fun u hu => List.mem_singleton.1 hu ▸ rfl, ?_⟩
  change ((s.act (.take i)).1) = _
  rw [act, hi, deliver, own]
  exact congrArg Prod.fst (expire_of_current hgeneration.symm hkey)

theorem ends_of_passed {report : Traced Expiry} (hkey : s.place.key? = some key)
    (hgeneration : report.item.generation = s.place.generation) (hreport : report ∈ s.passed) :
    s.Ends key := by
  obtain ⟨i, hi⟩ := List.mem_iff_getElem?.1 hreport
  have hwaiting : report ∈ (s.step (.report i)).2.waiting := by
    change report ∈ s.waiting ++ s.passed[i]?.toList
    rw [hi]
    exact List.mem_append_right _ (List.mem_singleton_self report)
  exact .of_step rfl (ends_of_waiting (s := (s.step (.report i)).2) hkey hgeneration hwaiting)

theorem ends_of_timer {timer : Timer} (hkey : s.place.key? = some key)
    (hgeneration : timer.expiry.generation = s.place.generation)
    (htimer : s.place.timer = some timer) : s.Ends key := by
  have hfire : s.place.fire (s.now + timer.due) =
      (some timer.expiry, { s.place with timer := none }) := by
    simp only [HeadsUp.fire, htimer, if_pos (Nat.le_add_left timer.due s.now), if_pos hgeneration]
  have hpassed : ⟨s.origin, timer.expiry⟩ ∈
      ((s.step (.advance timer.due)).2.step .fire).2.passed := by
    change _ ∈ s.passed ++ ((s.place.fire (s.now + timer.due)).1.map (Traced.mk s.origin)).toList
    rw [hfire]
    exact List.mem_append_right _ (List.mem_singleton_self _)
  have hplace : ((s.step (.advance timer.due)).2.step .fire).2.place =
      { s.place with timer := none } :=
    congrArg Prod.snd hfire
  refine .of_step (t := .advance timer.due) rfl (.of_step (t := .fire) rfl ?_)
  refine ends_of_passed ?_ ?_ hpassed
  · rw [hplace]
    exact hkey
  · rw [hplace]
    exact hgeneration

theorem Tidy.ends (h : s.Tidy) (hkey : s.place.key? = some key) : s.Ends key := by
  have hmem : ⟨key, s.place.generation⟩ ∈ s.outstanding := by
    rw [h.outstanding, owed, hkey]
    exact List.mem_singleton_self _
  rw [Scene.outstanding, List.mem_filter, Scene.pending, List.mem_append, List.mem_append,
    Option.mem_toList, Option.map_eq_some_iff, List.mem_map, List.mem_map] at hmem
  obtain ⟨(⟨timer, htimer, he⟩ | ⟨report, hreport, he⟩) | ⟨report, hreport, he⟩, -⟩ := hmem
  · exact ends_of_timer hkey (congrArg Expiry.generation he) htimer
  · exact ends_of_passed hkey (congrArg Expiry.generation he) hreport
  · exact ends_of_waiting hkey (congrArg Expiry.generation he) hreport

/-- While a record is visible, just one report of the current generation is still to come, and it
will take out that record. While nothing is visible there is none. -/
theorem outstanding_after (settings : HeadsUpSettings) (turns : List Turn) :
    let s := (fresh settings).after turns
    (∀ key, s.place.key? = some key →
      s.outstanding = [⟨key, s.place.generation⟩] ∧ s.Ends key) ∧
    (s.place.key? = none → s.outstanding = []) ∧
    ∀ stray ∈ s.strays, stray.item.expiry.generation ≠ s.place.generation := by
  intro s
  have htidy : s.Tidy := tidy_after settings turns
  refine ⟨?_, ?_, ?_⟩
  · intro key hkey
    refine ⟨?_, htidy.ends hkey⟩
    rw [htidy.outstanding, owed, hkey]
    rfl
  · intro hkey
    rw [htidy.outstanding, owed, hkey]
    rfl
  · exact fun stray hs => Nat.ne_of_lt (htidy.strays stray hs)

end Scene

end HeadsUp

end Noticeboard
