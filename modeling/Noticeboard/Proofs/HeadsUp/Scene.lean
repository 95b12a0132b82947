import Mathlib.Data.List.Induction
import Noticeboard.Proofs.HeadsUp.Operations

namespace Noticeboard

namespace HeadsUp

/-- Something a timer leads to, with the number of the turn that set the timer. -/
structure Traced (α : Type) where
  origin : Nat
  item : α
  deriving DecidableEq

structure Scene where
  place : HeadsUp
  now : Nat := 0
  turns : Nat := 0
  /-- The turn that set the timer of the place. -/
  origin : Nat := 0
  /-- Timers that the place has let go of. They may run on. -/
  strays : List (Traced Timer) := []
  /-- What timers are about to report. They have found the generation unchanged. -/
  passed : List (Traced Expiry) := []
  waiting : List (Traced Expiry) := []
  /-- All reports there ever were. Copies of them may be kept. -/
  sent : List (Traced Expiry) := []

inductive Turn where
  | present (r : Record)
  | dismiss (key : String) (reason : EndReason)
  | clear
  | advance (ms : Nat)
  | fire
  /-- A timer that should have ended has its turn all the same. -/
  | fireStray (i : Nat)
  | report (i : Nat)
  | take (i : Nat)
  /-- A copy of a report is applied. -/
  | takeCopy (i : Nat)

namespace Scene

/-- The place becomes another. A timer that it lets go of may run on. -/
def hold (s : Scene) (h : HeadsUp) : Scene :=
  { s with
    place := h
    origin := if h.timer = s.place.timer then s.origin else s.turns
    strays := s.strays ++
      ((s.place.timer.filter (h.timer != some ·)).map (Traced.mk s.origin)).toList }

def own (s : Scene) (told : Option HeadsUp.Change × HeadsUp) : Option HeadsUp.Change × Scene :=
  (told.1, s.hold told.2)

def deliver (s : Scene) : Option (Traced Expiry) → Option HeadsUp.Change × Scene
  | some report => s.own (s.place.expire report.item)
  | none => (none, s)

def wake (s : Scene) (origin : Nat) (h : HeadsUp) : Scene :=
  { s with passed := s.passed ++ ((h.fire s.now).1.map (Traced.mk origin)).toList }

def act (s : Scene) : Turn → Option HeadsUp.Change × Scene
  | .present r => s.own (s.place.present s.now r)
  | .dismiss key reason => s.own (s.place.dismiss key reason)
  | .clear => s.own s.place.clear
  | .advance ms => (none, { s with now := s.now + ms })
  | .fire => (none, { s.wake s.origin s.place with place := (s.place.fire s.now).2 })
  | .fireStray i =>
    match s.strays[i]? with
    | some stray =>
      let h := { s.place with timer := some stray.item }
      let kept := if (h.fire s.now).2.timer.isSome then s.strays else s.strays.eraseIdx i
      (none, { s.wake stray.origin h with strays := kept })
    | none => (none, s)
  | .report i =>
    (none, { s with
      passed := s.passed.eraseIdx i
      waiting := s.waiting ++ s.passed[i]?.toList
      sent := s.sent ++ s.passed[i]?.toList })
  | .take i => { s with waiting := s.waiting.eraseIdx i }.deliver s.waiting[i]?
  | .takeCopy i => s.deliver s.sent[i]?

def step (s : Scene) (t : Turn) : Option HeadsUp.Change × Scene :=
  ((s.act t).1, { (s.act t).2 with turns := s.turns + 1 })

def after (s : Scene) (turns : List Turn) : Scene :=
  turns.foldl (fun s t => (s.step t).2) s

def trace (s : Scene) : List Turn → List (Turn × Option HeadsUp.Change)
  | [] => []
  | t :: turns => (t, (s.step t).1) :: (s.step t).2.trace turns

/-- A turn that leaves the place as it is: it tells no change, and is none that clears. -/
def Quiet (p : Turn × Option HeadsUp.Change) : Prop :=
  p.1 ≠ .clear ∧ p.2 = none

def fresh (settings : HeadsUpSettings) : Scene where
  place := { settings := settings }

theorem after_cons (s : Scene) (t : Turn) (turns : List Turn) :
    s.after (t :: turns) = (s.step t).2.after turns :=
  rfl

theorem after_append (s : Scene) (turns more : List Turn) :
    s.after (turns ++ more) = (s.after turns).after more :=
  List.foldl_append

theorem after_concat (s : Scene) (turns : List Turn) (t : Turn) :
    s.after (turns ++ [t]) = ((s.after turns).step t).2 := by
  rw [after_append]
  rfl

theorem turns_after (settings : HeadsUpSettings) (turns : List Turn) :
    ((fresh settings).after turns).turns = turns.length := by
  induction turns using List.reverseRecOn with
  | nil => rfl
  | append_singleton turns t ih =>
    rw [after_concat, List.length_append, List.length_singleton, ← ih]
    rfl

variable (s : Scene)

theorem hold_self : s.hold s.place = s := by
  have hnone : s.place.timer.filter (s.place.timer != some ·) = none := by
    cases htimer : s.place.timer with
    | none => rfl
    | some timer => simp
  rw [hold, if_pos rfl, hnone, Option.map_none, Option.toList_none, List.append_nil]

theorem act_present_of_enabled (henabled : s.place.settings.enabled) (r : Record) :
    s.act (.present r) = (some (s.place.arrival r.key), s.hold (s.place.filled s.now r)) := by
  rw [act, own, present_of_enabled henabled]

theorem act_present_of_disabled (henabled : ¬ s.place.settings.enabled) (r : Record) :
    s.act (.present r) = (none, s) := by
  rw [act, own, present_of_disabled henabled, hold_self]

theorem act_dismiss_cases (key : String) (reason : EndReason) :
    s.act (.dismiss key reason) = (none, s) ∨
      s.act (.dismiss key reason) = (some (.dismissed key reason), s.hold s.place.emptied) := by
  rw [act, own]
  obtain he | he := dismiss_cases key reason s.place
  · rw [he, hold_self]
    exact .inl rfl
  · rw [he]
    exact .inr rfl

theorem deliver_cases (report : Option (Traced Expiry)) :
    s.deliver report = (none, s) ∨
      ∃ key, s.deliver report = (some (.dismissed key .timeout), s.hold s.place.emptied) := by
  cases report with
  | none => exact .inl rfl
  | some report =>
    rw [deliver, own]
    obtain ⟨-, he⟩ | ⟨key, -, -, he⟩ := expire_cases report.item s.place
    · rw [he, hold_self]
      exact .inl rfl
    · rw [he]
      exact .inr ⟨key, rfl⟩

/-- A quiet turn changes no more of the place than its timer. Any other turn is counted. -/
def Accounts (h : HeadsUp) (p : Turn × Option HeadsUp.Change) (h' : HeadsUp) : Prop :=
  (Quiet p ∧ ∃ timer, h' = { h with timer := timer }) ∨
    (¬ Quiet p ∧ h'.generation = h.generation + 1 ∧ h'.settings = h.settings)

variable {h : HeadsUp} {t : Turn}

theorem accounts_timer (ht : t ≠ .clear) (timer : Option Timer) :
    Accounts h (t, none) { h with timer := timer } :=
  .inl ⟨⟨ht, rfl⟩, timer, rfl⟩

theorem accounts_idle (ht : t ≠ .clear) : Accounts h (t, none) h :=
  accounts_timer ht h.timer

theorem accounts_filled (change : HeadsUp.Change) (now : Nat) (r : Record) :
    Accounts h (t, some change) (h.filled now r) :=
  .inr ⟨fun hq => Option.some_ne_none _ hq.2, rfl, rfl⟩

theorem accounts_emptied (change : HeadsUp.Change) : Accounts h (t, some change) h.emptied :=
  .inr ⟨fun hq => Option.some_ne_none _ hq.2, rfl, rfl⟩

theorem accounts_deliver (ht : t ≠ .clear) (s : Scene) (report : Option (Traced Expiry)) :
    Accounts s.place (t, (s.deliver report).1) (s.deliver report).2.place := by
  obtain he | ⟨key, he⟩ := s.deliver_cases report
  · rw [he]
    exact accounts_idle ht
  · rw [he]
    exact accounts_emptied _

theorem accounts_step (s : Scene) (t : Turn) :
    Accounts s.place (t, (s.step t).1) (s.step t).2.place := by
  rw [step]
  cases t with
  | present r =>
    by_cases henabled : s.place.settings.enabled
    · rw [s.act_present_of_enabled henabled]
      exact accounts_filled _ s.now r
    · rw [s.act_present_of_disabled henabled]
      exact accounts_idle Turn.noConfusion
  | dismiss key reason =>
    obtain he | he := s.act_dismiss_cases key reason
    · rw [he]
      exact accounts_idle Turn.noConfusion
    · rw [he]
      exact accounts_emptied _
  | clear => exact .inr ⟨fun hq => hq.1 rfl, rfl, rfl⟩
  | advance ms => exact accounts_idle Turn.noConfusion
  | fire =>
    obtain hfire | ⟨timer, -, -, hfire⟩ := fire_cases s.now s.place
    · rw [act, hfire]
      exact accounts_idle Turn.noConfusion
    · rw [act, hfire]
      exact accounts_timer Turn.noConfusion none
  | fireStray i =>
    rw [act]
    split
    · exact accounts_idle Turn.noConfusion
    · exact accounts_idle Turn.noConfusion
  | report i => exact accounts_idle Turn.noConfusion
  | take i => exact accounts_deliver Turn.noConfusion { s with waiting := s.waiting.eraseIdx i } _
  | takeCopy i => exact accounts_deliver Turn.noConfusion s _

theorem settings_step (s : Scene) (t : Turn) :
    (s.step t).2.place.settings = s.place.settings := by
  obtain ⟨-, timer, hplace⟩ | ⟨-, -, hsettings⟩ := accounts_step s t
  · rw [hplace]
  · exact hsettings

theorem generation_le_step (s : Scene) (t : Turn) :
    s.place.generation ≤ (s.step t).2.place.generation := by
  obtain ⟨-, timer, hplace⟩ | ⟨-, hgeneration, -⟩ := accounts_step s t
  · exact Nat.le_of_eq (congrArg HeadsUp.generation hplace).symm
  · exact hgeneration ▸ Nat.le_succ _

theorem settings_after (settings : HeadsUpSettings) (turns : List Turn) :
    ((fresh settings).after turns).place.settings = settings := by
  induction turns using List.reverseRecOn with
  | nil => rfl
  | append_singleton turns t ih => rw [after_concat, settings_step, ih]

theorem generation_le_after (s : Scene) (turns : List Turn) :
    s.place.generation ≤ (s.after turns).place.generation := by
  induction turns generalizing s with
  | nil => exact Nat.le_refl _
  | cons t turns ih => exact Nat.le_trans (s.generation_le_step t) (ih (s.step t).2)

/-- The generation is the same after a run just if all its turns are quiet. Then the record is
the same too. -/
theorem generation_after_eq_iff (s : Scene) (turns : List Turn) :
    (s.after turns).place.generation = s.place.generation ↔ ∀ p ∈ s.trace turns, Quiet p := by
  induction turns generalizing s with
  | nil => simp [trace, after]
  | cons t turns ih =>
    rw [trace, List.forall_mem_cons, after_cons]
    obtain ⟨hquiet, timer, hplace⟩ | ⟨hloud, hgeneration, -⟩ := accounts_step s t
    · rw [← ih, hplace, and_iff_right hquiet]
    · have hle := (s.step t).2.generation_le_after turns
      rw [hgeneration] at hle
      exact iff_of_false (Nat.ne_of_gt hle) fun hall => hloud hall.1

theorem record_after_of_quiet {s : Scene} {turns : List Turn}
    (hquiet : ∀ p ∈ s.trace turns, Quiet p) : (s.after turns).place.record = s.place.record := by
  induction turns generalizing s with
  | nil => rfl
  | cons t turns ih =>
    rw [trace, List.forall_mem_cons] at hquiet
    obtain ⟨-, timer, hplace⟩ | ⟨hloud, -, -⟩ := accounts_step s t
    · rw [after_cons, ih hquiet.2, hplace]
    · exact absurd hquiet.1 hloud

end Scene

end HeadsUp

end Noticeboard
