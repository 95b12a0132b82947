import Noticeboard.Proofs.HeadsUp.Changes

namespace Noticeboard

def Expiry.later (n : Nat) (e : Expiry) : Expiry :=
  { e with generation := n + e.generation }

def Timer.later (n : Nat) (t : Timer) : Timer :=
  { t with expiry := t.expiry.later n }

namespace HeadsUp

def later (n : Nat) (h : HeadsUp) : HeadsUp :=
  { h with generation := n + h.generation, timer := h.timer.map (Timer.later n) }

variable (n : Nat) (h : HeadsUp)

theorem filled_later (now : Nat) (r : Record) :
    (h.later n).filled now r = (h.filled now r).later n :=
  rfl

theorem emptied_later : (h.later n).emptied = h.emptied.later n :=
  rfl

theorem present_later (now : Nat) (r : Record) :
    (h.later n).present now r = ((h.present now r).1, (h.present now r).2.later n) := by
  by_cases henabled : h.settings.enabled
  · rw [present_of_enabled henabled, present_of_enabled (h := h.later n) henabled, filled_later]
    rfl
  · rw [present_of_disabled henabled, present_of_disabled (h := h.later n) henabled]

theorem dismiss_later (key : String) (reason : EndReason) :
    (h.later n).dismiss key reason =
      ((h.dismiss key reason).1, (h.dismiss key reason).2.later n) := by
  by_cases hkey : h.key? = some key
  · rw [dismiss_of_visible hkey, dismiss_of_visible (h := h.later n) hkey, emptied_later]
  · rw [dismiss_of_not_visible hkey, dismiss_of_not_visible (h := h.later n) hkey]

theorem dismissAll_later (keys : List String) (reason : EndReason) :
    Center.dismissAll keys reason (h.later n) =
      ((Center.dismissAll keys reason h).1, (Center.dismissAll keys reason h).2.later n) := by
  obtain ⟨key, hmem, hkey, hdismiss⟩ | ⟨hnot, hdismiss⟩ := Center.dismissAll_cases keys reason h
  · rw [hdismiss, Center.dismissAll_of_mem (h := h.later n) hkey hmem, dismiss_later]
  · rw [hdismiss, Center.dismissAll_of_not_mem (h := h.later n) hnot]

theorem expire_later (e : Expiry) :
    (h.later n).expire (e.later n) = ((h.expire e).1, (h.expire e).2.later n) := by
  by_cases hgeneration : h.generation = e.generation
  · have hlater : (h.later n).generation = (e.later n).generation :=
      congrArg (n + ·) hgeneration
    cases hkey : h.key? with
    | none => rw [expire_of_empty e hkey, expire_of_empty (h := h.later n) (e.later n) hkey]
    | some key =>
      rw [expire_of_current hgeneration hkey, expire_of_current (h := h.later n) hlater hkey,
        emptied_later]
  · have hlater : (h.later n).generation ≠ (e.later n).generation :=
      fun heq => hgeneration (Nat.add_left_cancel heq)
    rw [expire_of_stale hgeneration, expire_of_stale hlater]

variable {n} in
theorem expire_later_of_lt {e : Expiry} (he : e.generation < n) :
    (h.later n).expire e = (none, h.later n) :=
  expire_of_stale (Nat.ne_of_gt (Nat.lt_add_right h.generation he))

theorem fire_later (now : Nat) :
    (h.later n).fire now = ((h.fire now).1.map (Expiry.later n), (h.fire now).2.later n) := by
  cases htimer : h.timer with
  | none =>
    have hlater : (h.later n).timer = none := congrArg (Option.map (Timer.later n)) htimer
    rw [fire, fire, hlater, htimer]
    rfl
  | some timer =>
    have hlater : (h.later n).timer = some (timer.later n) :=
      congrArg (Option.map (Timer.later n)) htimer
    have hcurrent : (timer.later n).expiry.generation = (h.later n).generation ↔
        timer.expiry.generation = h.generation := Nat.add_left_cancel_iff
    rw [fire, fire, hlater, htimer]
    by_cases hdue : timer.due ≤ now
    · have hdue' : (timer.later n).due ≤ now := hdue
      simp only [if_pos hdue, if_pos hdue', hcurrent]
      by_cases hsame : timer.expiry.generation = h.generation
      · rw [if_pos hsame, if_pos hsame]
        rfl
      · rw [if_neg hsame, if_neg hsame]
        rfl
    · have hdue' : ¬ (timer.later n).due ≤ now := hdue
      simp only [if_neg hdue, if_neg hdue']
      rfl

/-- The generation only grows, and a timer that is set is of a generation that was reached. -/
structure Ages (h h' : HeadsUp) : Prop where
  generation : h.generation ≤ h'.generation
  timer : ∀ timer, h'.timer = some timer →
    h.timer = some timer ∨ timer.expiry.generation ≤ h'.generation

theorem Ages.refl : Ages h h where
  generation := Nat.le_refl _
  timer _ htimer := .inl htimer

theorem ages_filled (now : Nat) (r : Record) : Ages h (h.filled now r) where
  generation := Nat.le_succ _
  timer timer htimer := by
    cases htimer
    exact .inr (Nat.le_refl _)

theorem ages_emptied : Ages h h.emptied where
  generation := Nat.le_succ _
  timer timer htimer := by cases htimer

theorem ages_present (now : Nat) (r : Record) : Ages h (h.present now r).2 := by
  by_cases henabled : h.settings.enabled
  · rw [present_of_enabled henabled]
    exact h.ages_filled now r
  · rw [present_of_disabled henabled]
    exact .refl h

theorem ages_dismiss (key : String) (reason : EndReason) : Ages h (h.dismiss key reason).2 := by
  obtain hdismiss | hdismiss := dismiss_cases key reason h
  · rw [hdismiss]
    exact .refl h
  · rw [hdismiss]
    exact h.ages_emptied

theorem ages_dismissAll (keys : List String) (reason : EndReason) :
    Ages h (Center.dismissAll keys reason h).2 := by
  obtain ⟨key, -, -, hdismiss⟩ | ⟨-, hdismiss⟩ := Center.dismissAll_cases keys reason h
  · rw [hdismiss]
    exact h.ages_dismiss key reason
  · rw [hdismiss]
    exact .refl h

theorem ages_expire (e : Expiry) : Ages h (h.expire e).2 := by
  obtain ⟨-, hexpire⟩ | ⟨key, -, -, hexpire⟩ := expire_cases e h
  · rw [hexpire]
    exact .refl h
  · rw [hexpire]
    exact h.ages_emptied

theorem ages_fire (now : Nat) : Ages h (h.fire now).2 := by
  obtain hfire | ⟨timer, -, -, hfire⟩ := fire_cases now h
  · rw [hfire]
    exact .refl h
  · rw [hfire]
    refine ⟨Nat.le_refl _, ?_⟩
    intro timer htimer
    cases htimer

/-- A timer of another generation reports nothing, even if it was never stopped. -/
theorem fire_of_stale {timer : Timer} (hstale : timer.expiry.generation ≠ h.generation)
    (now : Nat) : ({ h with timer := some timer }.fire now).1 = none := by
  rw [fire]
  by_cases hdue : timer.due ≤ now
  · simp only [if_pos hdue, if_neg hstale]
  · simp only [if_neg hdue]

end HeadsUp

end Noticeboard
