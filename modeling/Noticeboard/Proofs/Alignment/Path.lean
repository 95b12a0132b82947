import Noticeboard.Edit.Alignment

namespace Noticeboard.Alignment

variable {n m : Nat} (same : Fin n → Fin m → Bool)

def Meets (x y : Nat) : Prop :=
  ∃ (hx : x < n) (hy : y < m), same ⟨x, hx⟩ ⟨y, hy⟩

/-- A path with `d` steps off a diagonal leads to `(x, y)`. -/
inductive Path : Nat → Nat → Nat → Prop where
  | origin : Path 0 0 0
  | right {d x y : Nat} (h : Path d x y) : Path (d + 1) (x + 1) y
  | down {d x y : Nat} (h : Path d x y) : Path (d + 1) x (y + 1)
  | diagonal {d x y : Nat} (h : Path d x y) (hs : Meets same x y) : Path d (x + 1) (y + 1)

/-- A path leads to `(x, y)` and its last step, if it has one, is off a diagonal. -/
inductive Entry : Nat → Nat → Nat → Prop where
  | origin : Entry 0 0 0
  | right {d x y : Nat} (h : Path same d x y) : Entry (d + 1) (x + 1) y
  | down {d x y : Nat} (h : Path same d x y) : Entry (d + 1) x (y + 1)

variable {same}

namespace Path

variable {d x y : Nat}

theorem reach (h : Path same d x y) (a b : Nat) : Path same (d + a + b) (x + a) (y + b) := by
  have hright : Path same (d + a) (x + a) y := by
    induction a with
    | zero => exact h
    | succ a ih => exact ih.right
  induction b with
  | zero => exact hright
  | succ b ih => exact ih.down

theorem straight : Path same (x + y) x y := by
  have horigin : Path same 0 0 0 := origin
  have h := horigin.reach x y
  rwa [Nat.zero_add, Nat.zero_add] at h

theorem slide (h : Path same d x y) {s : Nat} (hs : ∀ t < s, Meets same (x + t) (y + t)) :
    Path same d (x + s) (y + s) := by
  induction s with
  | zero => exact h
  | succ s ih =>
    exact (ih fun t ht => hs t (by omega)).diagonal (hs s (by omega))

theorem parity (h : Path same d x y) : (x + y + d) % 2 = 0 := by
  induction h with
  | origin => rfl
  | right _ ih | down _ ih | diagonal _ _ ih => omega

theorem near (h : Path same d x y) : x ≤ y + d ∧ y ≤ x + d := by
  induction h with
  | origin => exact ⟨Nat.le_refl _, Nat.le_refl _⟩
  | right _ ih | down _ ih | diagonal _ _ ih => omega

/-- Every step outside the grid can be left out. -/
theorem clamp (h : Path same d x y) :
    ∃ e, Path same e (min x n) (min y m) ∧ e + (x - n) + (y - m) = d := by
  induction h with
  | origin => exact ⟨0, by simpa using origin, by omega⟩
  | @right d x y _ ih =>
    obtain ⟨e, hp, he⟩ := ih
    by_cases hx : x < n
    · rw [Nat.min_eq_left (by omega)] at hp
      rw [Nat.min_eq_left (by omega)]
      exact ⟨e + 1, hp.right, by omega⟩
    · rw [Nat.min_eq_right (by omega)] at hp
      rw [Nat.min_eq_right (by omega)]
      exact ⟨e, hp, by omega⟩
  | @down d x y _ ih =>
    obtain ⟨e, hp, he⟩ := ih
    by_cases hy : y < m
    · rw [Nat.min_eq_left (b := m) (by omega)] at hp
      rw [Nat.min_eq_left (b := m) (by omega)]
      exact ⟨e + 1, hp.down, by omega⟩
    · rw [Nat.min_eq_right (b := m) (by omega)] at hp
      rw [Nat.min_eq_right (b := m) (by omega)]
      exact ⟨e, hp, by omega⟩
  | @diagonal d x y _ hs ih =>
    obtain ⟨e, hp, he⟩ := ih
    obtain ⟨hx, hy, _⟩ := id hs
    rw [Nat.min_eq_left (by omega), Nat.min_eq_left (by omega)] at hp ⊢
    exact ⟨e, hp.diagonal hs, by omega⟩

/-- A point on a diagonal is the furthest that is reached there if no path enters the diagonal
further on and the diagonal does not go on from it. -/
theorem le_of_blocked {a b : Nat} (h : Path same d a b)
    (henter : ∀ a b, Entry same d a b → (a : Int) - b = x - y → a ≤ x)
    (hblocked : ¬ Meets same x y) (hk : (a : Int) - b = x - y) : a ≤ x := by
  induction h with
  | origin => exact henter 0 0 .origin hk
  | right h _ => exact henter _ _ (.right h) hk
  | down h _ => exact henter _ _ (.down h) hk
  | @diagonal d a b _ hs ih =>
    have hle := ih henter (by omega)
    obtain hlt | rfl := Nat.lt_or_eq_of_le hle
    · exact hlt
    · have hb : b = y := by omega
      subst hb
      exact absurd hs hblocked

end Path

/-- Among the points of its diagonal that `d` steps reach, `(x, y)` is the furthest. -/
structure Furthest (same : Fin n → Fin m → Bool) (d x y : Nat) : Prop where
  path : Path same d x y
  le : ∀ a b : Nat, Path same d a b → (a : Int) - b = x - y → a ≤ x

namespace Furthest

variable {d x y : Nat}

theorem of_slide {s : Nat} (hp : Path same d x y)
    (henter : ∀ a b, Entry same d a b → (a : Int) - b = x - y → a ≤ x)
    (hs : ∀ t < s, Meets same (x + t) (y + t)) (hblocked : ¬ Meets same (x + s) (y + s)) :
    Furthest same d (x + s) (y + s) where
  path := hp.slide hs
  le a b h hk := by
    apply h.le_of_blocked _ hblocked hk
    intro a b he hab
    have hle := henter a b he (by omega)
    omega

/-- The first time that a path reaches the far corner, no furthest point lies beyond: the steps
outside the grid could be left out. -/
theorem eq_corner_of_le (h : Furthest same d x y) (hx : n ≤ x) (hy : m ≤ y)
    (hfirst : ∀ e < d, ¬ Path same e n m) : x = n ∧ y = m := by
  obtain ⟨e, hp, he⟩ := h.path.clamp
  rw [Nat.min_eq_right hx, Nat.min_eq_right hy] at hp
  have hd : ¬ e < d := fun hlt => hfirst e hlt hp
  omega

theorem eq_corner (h : Furthest same d x y) (hk : (x : Int) - y = n - m) (hend : Path same d n m)
    (hfirst : ∀ e < d, ¬ Path same e n m) : x = n ∧ y = m := by
  have hx := h.le n m hend (by omega)
  exact h.eq_corner_of_le hx (by omega) hfirst

end Furthest

end Noticeboard.Alignment
