import Noticeboard.HeadsUp

namespace Noticeboard

namespace HeadsUp

def filled (now : Nat) (r : Record) (h : HeadsUp) : HeadsUp :=
  { h with
    record := some r
    generation := h.generation + 1
    timer := some ⟨⟨r.key, h.generation + 1⟩, now + h.settings.durationMs.toNat⟩ }

def emptied (h : HeadsUp) : HeadsUp :=
  { h with record := none, generation := h.generation + 1, timer := none }

variable {h : HeadsUp} {e : Expiry} {key : String}

theorem present_of_enabled (henabled : h.settings.enabled) (now : Nat) (r : Record) :
    h.present now r = (some (h.arrival r.key), h.filled now r) := by
  rw [present, if_pos henabled]
  rfl

theorem present_of_disabled (henabled : ¬ h.settings.enabled) (now : Nat) (r : Record) :
    h.present now r = (none, h) := by
  rw [present, if_neg henabled]

theorem dismiss_of_visible (hkey : h.key? = some key) (reason : EndReason) :
    h.dismiss key reason = (some (.dismissed key reason), h.emptied) :=
  if_pos hkey

theorem dismiss_of_not_visible (hkey : h.key? ≠ some key) (reason : EndReason) :
    h.dismiss key reason = (none, h) :=
  if_neg hkey

theorem dismiss_cases (key : String) (reason : EndReason) (h : HeadsUp) :
    h.dismiss key reason = (none, h) ∨
      h.dismiss key reason = (some (.dismissed key reason), h.emptied) := by
  by_cases hkey : h.key? = some key
  · exact .inr (dismiss_of_visible hkey reason)
  · exact .inl (dismiss_of_not_visible hkey reason)

theorem clear_eq (h : HeadsUp) : h.clear = (h.key?.map (.dismissed · .reset), h.emptied) :=
  rfl

theorem expire_of_current (hgeneration : h.generation = e.generation) (hkey : h.key? = some key) :
    h.expire e = (some (.dismissed key .timeout), h.emptied) := by
  rw [expire, if_pos hgeneration, hkey]
  rfl

theorem expire_of_stale (hgeneration : h.generation ≠ e.generation) : h.expire e = (none, h) :=
  if_neg hgeneration

theorem expire_of_empty (e : Expiry) (hkey : h.key? = none) : h.expire e = (none, h) := by
  rw [expire, hkey]
  exact ite_self _

theorem expire_cases (e : Expiry) (h : HeadsUp) :
    ((h.generation ≠ e.generation ∨ h.key? = none) ∧ h.expire e = (none, h)) ∨
      ∃ key, h.generation = e.generation ∧ h.key? = some key ∧
        h.expire e = (some (.dismissed key .timeout), h.emptied) := by
  by_cases hgeneration : h.generation = e.generation
  · cases hkey : h.key? with
    | none => exact .inl ⟨.inr rfl, expire_of_empty e hkey⟩
    | some key => exact .inr ⟨key, hgeneration, rfl, expire_of_current hgeneration hkey⟩
  · exact .inl ⟨.inl hgeneration, expire_of_stale hgeneration⟩

theorem fire_cases (now : Nat) (h : HeadsUp) :
    h.fire now = (none, h) ∨
      ∃ timer, h.timer = some timer ∧ timer.due ≤ now ∧
        h.fire now =
          (if timer.expiry.generation = h.generation then some timer.expiry else none,
            { h with timer := none }) := by
  cases htimer : h.timer with
  | none =>
    left
    rw [fire, htimer]
  | some timer =>
    by_cases hdue : timer.due ≤ now
    · exact .inr ⟨timer, rfl, hdue, by simp only [fire, htimer, if_pos hdue]⟩
    · exact .inl (by simp only [fire, htimer, if_neg hdue])

end HeadsUp

end Noticeboard
