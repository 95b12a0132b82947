import Mathlib.Combinatorics.Enumerative.DoubleCounting
import Mathlib.Data.Finset.Card
import Noticeboard.Proofs.Difference.Moves

namespace Noticeboard.Difference

open Noticeboard.Alignment

variable {n m : Nat} {same : Fin n → Fin m → Bool}

/-- Two new items that are the same as one old item are the same as the same old items. -/
def Sorts (same : Fin n → Fin m → Bool) : Prop :=
  ∀ i i' j j', same i j → same i j' → same i' j → same i' j'

/-- Every new item has at most one old item, which is the same, and no old item has two. -/
structure Matching (same : Fin n → Fin m → Bool) (origin : Fin m → Option (Fin n)) : Prop where
  related : ∀ i j, origin j = some i → same i j
  once : ∀ i j j', origin j = some i → origin j' = some i → j = j'

def matched (origin : Fin m → Option (Fin n)) : Finset (Fin m) :=
  Finset.univ.filter fun j => (origin j).isSome

theorem mem_matched {origin : Fin m → Option (Fin n)} {j : Fin m} :
    j ∈ matched origin ↔ ∃ i, origin j = some i := by
  rw [matched, Finset.mem_filter, Option.isSome_iff_exists]
  exact and_iff_right (Finset.mem_univ j)

theorem card_matched (origin : Fin m → Option (Fin n)) :
    (matched origin).card = ((List.finRange m).filterMap origin).length := by
  rw [List.length_filterMap_eq_countP, List.countP_eq_length_filter,
    ← List.toFinset_card_of_nodup ((List.nodup_finRange m).filter _)]
  congr 1
  ext j
  rw [List.mem_toFinset, List.mem_filter, mem_matched, Option.isSome_iff_exists]
  exact (and_iff_right (List.mem_finRange j)).symm

def Served (same : Fin n → Fin m → Bool) (partners : Partners n m) (i : Fin n) : Prop :=
  ∀ j : Fin m, same i j → ∃ i', partners.get j = some i'

variable {common : List (Fin n × Fin m)} {partners : Partners n m}

theorem Pairing.exists_partner (h : Pairing same common partners) {i : Fin n}
    (hi : ¬ Served same partners i) : ∃ j : Fin m, partners.get j = some i := by
  rw [Served, not_forall] at hi
  obtain ⟨j, hj⟩ := hi
  rw [Classical.not_imp, ← Option.isSome_iff_exists, Option.not_isSome_iff_eq_none] at hj
  by_contra hout
  rw [not_exists] at hout
  rw [h.exhausted i hout j hj.2] at hj
  exact Bool.false_ne_true hj.1

/-- Every new item that another matching matches is charged to one that has a partner: to itself
if all of its kind have partners, and otherwise to the partner of its old item. -/
theorem Pairing.card_le (h : Pairing same common partners) (hsorts : Sorts same)
    {origin : Fin m → Option (Fin n)} (horigin : Matching same origin) :
    (matched origin).card ≤ (matched fun j => partners.get j).card := by
  apply Finset.card_le_card_of_forall_subsingleton fun j j' => ∃ i, origin j = some i ∧
    (Served same partners i ∧ j' = j ∨ ¬ Served same partners i ∧ partners.get j' = some i)
  · intro j hj
    obtain ⟨i, hi⟩ := mem_matched.1 hj
    by_cases hserved : Served same partners i
    · exact ⟨j, mem_matched.2 (hserved j (horigin.related i j hi)), i, hi, .inl ⟨hserved, rfl⟩⟩
    · obtain ⟨j', hj'⟩ := h.exists_partner hserved
      exact ⟨j', mem_matched.2 ⟨i, hj'⟩, i, hi, .inr ⟨hserved, hj'⟩⟩
  · -- Two items of different standing are of different kinds, so that they never meet.
    have hapart : ∀ i i' j, origin j = some i → Served same partners i →
        ¬ Served same partners i' → partners.get j ≠ some i' := by
      intro i i' j hi hserved hi' hj
      apply hi'
      intro j' hj'
      apply hserved
      exact hsorts i' i j j' (h.related i' j hj) hj' (horigin.related i j hi)
    rintro j' - j₁ ⟨-, i₁, h₁, hc₁⟩ j₂ ⟨-, i₂, h₂, hc₂⟩
    obtain ⟨hs₁, rfl⟩ | ⟨hs₁, hp₁⟩ := hc₁
    · obtain ⟨-, rfl⟩ | ⟨hs₂, hp₂⟩ := hc₂
      · rfl
      · exact absurd hp₂ (hapart i₁ i₂ _ h₁ hs₁ hs₂)
    · obtain ⟨hs₂, rfl⟩ | ⟨-, hp₂⟩ := hc₂
      · exact absurd hp₁ (hapart i₂ i₁ _ h₂ hs₂ hs₁)
      · have hi : i₁ = i₂ := Option.some.inj (hp₁.symm.trans hp₂)
        exact horigin.once i₁ j₁ j₂ h₁ (hi ▸ h₂)

theorem Pairing.length_le_target (h : Pairing same common partners) (hsorts : Sorts same)
    {origin : Fin m → Option (Fin n)} (horigin : Matching same origin) :
    ((List.finRange m).filterMap origin).length ≤ (target partners).length := by
  have hcard := h.card_le hsorts horigin
  rwa [card_matched, card_matched] at hcard

end Noticeboard.Difference
