import Noticeboard.Proofs.Alignment.Path

namespace Noticeboard.Alignment

namespace Frontier

variable {f g : Frontier} {k x y : Int}

theorem exists_set? (h : f.get? k = some y) (x : Int) : ∃ g, f.set? k x = some g := by
  simp only [get?, index?, Option.bind_eq_bind, Option.bind_eq_some_iff] at h
  obtain ⟨i, hi, hget⟩ := h
  obtain ⟨hlt, -⟩ := Array.getElem?_eq_some_iff.1 hget
  exact ⟨{ f with reached := f.reached.setIfInBounds i x }, by simp [set?, index?, hi, hlt]⟩

theorem get?_start (n m : Nat) (k : Int) (hl : -(n + m : Nat) ≤ k) (hr : k ≤ (n + m : Nat) + 1) :
    (start n m).get? k = some 0 := by
  obtain ⟨i, hi, hlt⟩ : ∃ i, (k + (n + m : Nat)).toNat? = some i ∧ i < 2 * (n + m) + 2 :=
    ⟨(k + (n + m : Nat)).toNat, Int.mem_toNat?.2 (by omega), by omega⟩
  simp only [get?, index?, start, hi, Option.bind_eq_bind, Option.bind_some]
  simp [hlt]

theorem entersDown?_lower (f : Frontier) (d : Int) : f.entersDown? d (-d) = some true := by
  simp [entersDown?]

theorem entersDown?_upper (f : Frontier) {d : Int} (hd : d ≠ -d) :
    f.entersDown? d d = some false := by
  simp [entersDown?, hd]

theorem entersDown?_inner {d : Int} (hl : k ≠ -d) (hr : k ≠ d) (hx : f.get? (k - 1) = some x)
    (hy : f.get? (k + 1) = some y) : f.entersDown? d k = some (decide (x < y)) := by
  simp [entersDown?, hl, hr, hx, hy]

end Frontier

variable {n m : Nat} {same : Fin n → Fin m → Bool}

/-- A diagonal belongs to round `d` if a path of `d` steps can end on it. -/
def Turn (d : Nat) (k : Int) : Prop :=
  -d ≤ k ∧ k ≤ d ∧ (k + d) % 2 = 0

instance (d : Nat) (k : Int) : Decidable (Turn d k) :=
  inferInstanceAs (Decidable (_ ∧ _ ∧ _))

theorem Path.turn {d x y : Nat} (h : Path same d x y) : Turn d ((x : Int) - y) := by
  have hn := h.near
  have hp := h.parity
  refine ⟨?_, ?_, ?_⟩ <;> omega

theorem point?_of_lt {x y : Nat} (hx : x < n) (hy : y < m) :
    point? n m x y = some (⟨x, hx⟩, ⟨y, hy⟩) := by
  simp [point?, hx, hy]

theorem slide?_spec (same : Fin n → Fin m → Bool) {left x y : Nat} (hleft : left = n - x) :
    ∃ s : Nat, slide? same left x y = some ((x + s : Nat) : Int) ∧
      (∀ t < s, Meets same (x + t) (y + t)) ∧ ¬ Meets same (x + s) (y + s) := by
  induction left generalizing x y with
  | zero =>
    refine ⟨0, rfl, by simp, ?_⟩
    rintro ⟨hx, -⟩
    omega
  | succ left ih =>
    have hx : x < n := by omega
    by_cases hy : y < m
    · cases hs : same ⟨x, hx⟩ ⟨y, hy⟩ with
      | true =>
        obtain ⟨s, hslide, hmeets, hblocked⟩ := ih (x := x + 1) (y := y + 1) (by omega)
        refine ⟨s + 1, ?_, ?_, ?_⟩
        · simp only [slide?, Int.ofNat_lt.2 hy, if_true, point?_of_lt hx hy, Option.bind_eq_bind,
            Option.bind_some, hs]
          rw [show x + (s + 1) = x + 1 + s by omega]
          exact hslide
        · intro t ht
          cases t with
          | zero => exact ⟨hx, hy, hs⟩
          | succ t =>
            have h := hmeets t (by omega)
            rwa [show x + 1 + t = x + (t + 1) by omega, show y + 1 + t = y + (t + 1) by omega] at h
        · rwa [show x + 1 + s = x + (s + 1) by omega, show y + 1 + s = y + (s + 1) by omega]
            at hblocked
      | false =>
        refine ⟨0, ?_, by simp, ?_⟩
        · simp [slide?, hy, point?_of_lt hx hy, hs]
        · rintro ⟨_, _, h⟩
          simp [hs] at h
    · refine ⟨0, ?_, by simp, ?_⟩
      · simp [slide?, hy]
      · rintro ⟨_, h, _⟩
        exact hy h

theorem reach?_of_enter (same : Fin n → Fin m → Bool) {f : Frontier} {d k : Int} {b : Bool}
    {x₀ : Int} {x y : Nat} (hb : f.entersDown? d k = some b)
    (hx₀ : f.get? (if b then k + 1 else k - 1) = some x₀)
    (hx : (x : Int) = if b then x₀ else x₀ + 1) (hk : (x : Int) - y = k) :
    ∃ s : Nat, reach? same d k f = some ((x + s : Nat) : Int) ∧
      (∀ t < s, Meets same (x + t) (y + t)) ∧ ¬ Meets same (x + s) (y + s) := by
  obtain ⟨s, hslide, hs⟩ := slide?_spec same (y := y) (rfl : n - x = n - x)
  refine ⟨s, ?_, hs⟩
  have hleft : ((n : Int) - x).toNat = n - x := by omega
  have hy : (x : Int) - k = y := by omega
  cases b with
  | true =>
    simp only [if_true] at hx₀ hx
    simp [reach?, hb, hx₀, ← hx, hleft, hy, hslide]
  | false =>
    simp only [Bool.false_eq_true, if_false] at hx₀ hx
    simp [reach?, hb, hx₀, ← hx, hleft, hy, hslide]

/-- The frontier that round `d` leaves: the furthest point on each of its diagonals. -/
def Settled (same : Fin n → Fin m → Bool) (d : Nat) (f : Frontier) : Prop :=
  ∀ k, Turn d k → ∃ x y : Nat, f.get? k = some (x : Int) ∧ (x : Int) - y = k ∧
    Furthest same d x y

theorem reach?_zero (same : Fin n → Fin m → Bool) {f : Frontier} (h : f.get? 1 = some 0) :
    ∃ x : Nat, reach? same 0 0 f = some (x : Int) ∧ Furthest same 0 x x := by
  obtain ⟨s, hreach, hs, hblocked⟩ := reach?_of_enter same (x := 0) (y := 0)
    (f.entersDown?_lower 0) h rfl rfl
  have hf : Furthest same 0 (0 + s) (0 + s) := by
    apply Furthest.of_slide .origin _ hs hblocked
    intro a b he _
    cases he
    exact Nat.le_refl _
  exact ⟨0 + s, hreach, hf⟩

theorem Entry.le_of_neighbours {d a b x : Nat} {k : Int} (he : Entry same (d + 1) a b)
    (hk : (a : Int) - b = k)
    (hright : ∀ a b, Path same d a b → (a : Int) - b = k - 1 → a + 1 ≤ x)
    (hdown : ∀ a b, Path same d a b → (a : Int) - b = k + 1 → a ≤ x) : a ≤ x := by
  cases he with
  | right hp => exact hright _ _ hp (by omega)
  | down hp => exact hdown _ _ hp (by omega)

theorem Path.ne_of_not_turn {d a b : Nat} {k : Int} (hp : Path same d a b) (hk : ¬ Turn d k) :
    (a : Int) - b ≠ k :=
  fun h => hk (h ▸ hp.turn)

/-- The step onto diagonal `k` that comes furthest, `down` or to the right. It begins at the
furthest point `(x, y)` of a neighbour. -/
structure Entrance (same : Fin n → Fin m → Bool) (d : Nat) (k : Int) (down : Bool) (x y : Nat) :
    Prop where
  neighbour : (x : Int) - y = if down then k + 1 else k - 1
  furthest : Furthest same d x y
  of_right : ∀ a b, Path same d a b → (a : Int) - b = k - 1 → a + 1 ≤ if down then x else x + 1
  of_down : ∀ a b, Path same d a b → (a : Int) - b = k + 1 → a ≤ if down then x else x + 1

variable {f : Frontier} {d : Nat} {k : Int}

theorem Settled.entrance (h : Settled same d f) (hk : Turn (d + 1) k) :
    ∃ (down : Bool) (x y : Nat), f.entersDown? (d + 1 : Nat) k = some down ∧
      f.get? (if down then k + 1 else k - 1) = some (x : Int) ∧ Entrance same d k down x y := by
  obtain ⟨hl, hr, hp⟩ := hk
  by_cases hlow : k = -(d + 1 : Nat)
  · obtain ⟨x, y, hget, hxy, hf⟩ := h (k + 1) ⟨by omega, by omega, by omega⟩
    refine ⟨true, x, y, hlow ▸ f.entersDown?_lower _, hget, hxy, hf, fun a b hp hab => ?_,
      fun a b hp hab => hf.le a b hp (by omega)⟩
    exact absurd hab (hp.ne_of_not_turn fun ht => by have := ht.1; omega)
  · by_cases hhigh : k = (d + 1 : Nat)
    · obtain ⟨x, y, hget, hxy, hf⟩ := h (k - 1) ⟨by omega, by omega, by omega⟩
      refine ⟨false, x, y, hhigh ▸ f.entersDown?_upper (by omega), hget, hxy, hf,
        fun a b hp hab => Nat.succ_le_succ (hf.le a b hp (by omega)), fun a b hp hab => ?_⟩
      exact absurd hab (hp.ne_of_not_turn fun ht => by have := ht.2.1; omega)
    · obtain ⟨x, y, hget, hxy, hf⟩ := h (k - 1) ⟨by omega, by omega, by omega⟩
      obtain ⟨x', y', hget', hxy', hf'⟩ := h (k + 1) ⟨by omega, by omega, by omega⟩
      have hle : ∀ a b, Path same d a b → (a : Int) - b = k - 1 → a ≤ x :=
        fun a b hp hab => hf.le a b hp (by omega)
      have hle' : ∀ a b, Path same d a b → (a : Int) - b = k + 1 → a ≤ x' :=
        fun a b hp hab => hf'.le a b hp (by omega)
      have hfirst := f.entersDown?_inner hlow hhigh hget hget'
      by_cases hlt : (x : Int) < x'
      · rw [decide_eq_true hlt] at hfirst
        refine ⟨true, x', y', hfirst, hget', hxy', hf', fun a b hp hab => ?_, hle'⟩
        exact Nat.succ_le_of_lt (Nat.lt_of_le_of_lt (hle a b hp hab) (Int.ofNat_lt.1 hlt))
      · rw [decide_eq_false hlt] at hfirst
        refine ⟨false, x, y, hfirst, hget, hxy, hf,
          fun a b hp hab => Nat.succ_le_succ (hle a b hp hab), fun a b hp hab => ?_⟩
        have := hle' a b hp hab
        simp only [Bool.false_eq_true, if_false]
        omega

theorem reach?_succ (h : Settled same d f) (hk : Turn (d + 1) k) :
    ∃ x y : Nat, reach? same (d + 1 : Nat) k f = some (x : Int) ∧ (x : Int) - y = k ∧
      Furthest same (d + 1) x y := by
  obtain ⟨down, x, y, hfirst, hget, hxy, hf, hright, hdown⟩ := h.entrance hk
  cases down with
  | true =>
    obtain ⟨s, hreach, hs, hblocked⟩ :=
      reach?_of_enter same (y := y + 1) hfirst hget rfl (by simp at hxy; omega)
    simp only [if_true] at hxy hright hdown
    refine ⟨x + s, y + 1 + s, hreach, by omega, .of_slide hf.path.down ?_ hs hblocked⟩
    exact fun a b he hab => he.le_of_neighbours (by omega) hright hdown
  | false =>
    obtain ⟨s, hreach, hs, hblocked⟩ :=
      reach?_of_enter same (x := x + 1) (y := y) hfirst hget (by simp)
        (by simp at hxy; omega)
    simp only [Bool.false_eq_true, if_false] at hxy hright hdown
    refine ⟨x + 1 + s, y + s, hreach, by omega, .of_slide hf.path.right ?_ hs hblocked⟩
    exact fun a b he hab => he.le_of_neighbours (by omega) hright hdown

def Follows (same : Fin n → Fin m → Bool) (d : Nat) (f g : Frontier) : Prop :=
  ∀ k, g.get? k = if Turn d k then reach? same d k f else f.get? k

def Done (n m : Nat) (k x : Int) : Prop :=
  (n : Int) ≤ x ∧ (m : Int) ≤ x - k

theorem reach?_congr {g : Frontier} {d : Int} (hl : g.get? (k - 1) = f.get? (k - 1))
    (hr : g.get? (k + 1) = f.get? (k + 1)) : reach? same d k g = reach? same d k f := by
  simp only [reach?, Frontier.entersDown?, hl, hr]

/-- A frontier in the middle of round `d` on the frontier `f`: written below diagonal `k`. -/
def Written (same : Fin n → Fin m → Bool) (d : Nat) (f : Frontier) (k : Int) (g : Frontier) :
    Prop :=
  ∀ j, g.get? j = if Turn d j ∧ j < k then reach? same d j f else f.get? j

namespace Written

variable {g g' : Frontier} {x : Int}

theorem start : Written same d f (-d) f := by
  intro j
  rw [if_neg]
  rintro ⟨⟨hl, _⟩, hlt⟩
  omega

-- The neighbours of a diagonal belong to the round before, so that nothing there is written yet.
theorem reach?_eq (h : Written same d f k g) (hk : Turn d k) :
    reach? same d k g = reach? same d k f := by
  have hout : ∀ j : Int, (j + d) % 2 = 1 → g.get? j = f.get? j := by
    intro j hj
    rw [h j, if_neg]
    rintro ⟨⟨_, _, hp⟩, _⟩
    omega
  have hp := hk.2.2
  exact reach?_congr (hout (k - 1) (by omega)) (hout (k + 1) (by omega))

theorem get?_eq (h : Written same d f k g) : g.get? k = f.get? k := by
  rw [h k, if_neg (by omega)]

theorem next (h : Written same d f k g) (hk : Turn d k) (hx : reach? same d k f = some x)
    (hset : g.set? k x = some g') : Written same d f (k + 2) g' := by
  intro j
  rw [Frontier.get?_set? hset j]
  by_cases hj : j = k
  · have hlt : j < k + 2 := by omega
    subst hj
    simp only [hk, hlt, and_self, if_true, hx]
  · have hiff : Turn d j ∧ j < k + 2 ↔ Turn d j ∧ j < k := by
      apply and_congr_right
      intro ht
      have := ht.2.2
      have := hk.2.2
      omega
    simp only [hj, if_false, h j, hiff]

theorem follows (h : Written same d f k g) (hk : (d : Int) < k) : Follows same d f g := by
  intro j
  rw [h j]
  by_cases hj : Turn d j
  · have hlt : j < k := by
      have := hj.2.1
      omega
    simp [hj, hlt]
  · simp [hj]

end Written

/-- A round stops early at a diagonal where the search is done, else it leaves the next
frontier. -/
theorem round?_spec (hreach : ∀ k, Turn d k → ∃ x, reach? same d k f = some x)
    (hrange : ∀ k, Turn d k → ∃ x, f.get? k = some x) (left : Nat) (k : Int) (g : Frontier)
    (hlow : -d ≤ k) (hk : k + 2 * left = d + 2) (hg : Written same d f k g) :
    (∃ next j x, round? same d left k g = some (next, true) ∧ Turn d j ∧
      reach? same d j f = some x ∧ Done n m j x) ∨
    (∃ next, round? same d left k g = some (next, false) ∧ Follows same d f next ∧
      ∀ j x, Turn d j → k ≤ j → reach? same d j f = some x → ¬ Done n m j x) := by
  -- What is written so far lies below the diagonals to come, and these read the old frontier.
  induction left generalizing k g with
  | zero =>
    refine .inr ⟨g, rfl, hg.follows (by omega), ?_⟩
    intro j x hj hle _ _
    have := hj.2.1
    omega
  | succ left ih =>
    have hturn : Turn d k := ⟨hlow, by omega, by omega⟩
    obtain ⟨x, hx⟩ := hreach k hturn
    have hx' : reach? same d k g = some x := by rw [hg.reach?_eq hturn, hx]
    obtain ⟨y, hy⟩ := hrange k hturn
    obtain ⟨g', hg'⟩ := Frontier.exists_set? (hg.get?_eq.trans hy) x
    by_cases hdone : Done n m k x
    · refine .inl ⟨g', k, x, ?_, hturn, hx, hdone⟩
      have hd : (n : Int) ≤ x ∧ (m : Int) ≤ x - k := hdone
      simp [round?, hx', hg', hd]
    · have hstep : round? same d (left + 1) k g = round? same d left (k + 2) g' := by
        have hd : ¬ ((n : Int) ≤ x ∧ (m : Int) ≤ x - k) := hdone
        simp only [round?, hx', hg', hd, Option.bind_eq_bind, Option.bind_some, if_false]
      rw [hstep]
      obtain h | ⟨next, hnext, hf, hnot⟩ :=
        ih (k + 2) g' (by omega) (by omega) (hg.next hturn hx hg')
      · exact .inl h
      · refine .inr ⟨next, hnext, hf, ?_⟩
        intro j z hj hle hz
        by_cases hjk : j = k
        · subst hjk
          rw [hx, Option.some.injEq] at hz
          exact hz ▸ hdone
        · apply hnot j z hj _ hz
          have := hj.2.2
          have := hturn.2.2
          omega

end Noticeboard.Alignment
