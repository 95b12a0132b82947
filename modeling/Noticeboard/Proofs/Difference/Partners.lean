import Noticeboard.Edit.Difference
import Noticeboard.Proofs.Alignment.Search
import Mathlib.Data.List.Nodup

namespace Noticeboard.Difference

open Noticeboard.Alignment

variable {n m : Nat} {same : Fin n → Fin m → Bool}

theorem get_set_partner (partners : Partners n m) (j j' : Fin m) (i : Fin n) :
    (partners.set j (some i) j.isLt).get j' = if j = j' then some i else partners.get j' := by
  by_cases hj : j = j'
  · rw [if_pos hj, ← hj]
    exact Vector.getElem_set_self j.isLt
  · rw [if_neg hj]
    exact Vector.getElem_set_ne j.isLt j'.isLt fun he => hj (Fin.ext he)

theorem get_foldl_pairs {pairs : List (Fin n × Fin m)} (h : (pairs.map (·.2)).Nodup)
    (partners : Partners n m) (i : Fin n) (j : Fin m) :
    (pairs.foldl (fun partners (i, j) => partners.set j (some i) j.isLt) partners).get j = some i ↔
      (i, j) ∈ pairs ∨ partners.get j = some i ∧ j ∉ pairs.map (·.2) := by
  induction pairs generalizing partners with
  | nil => simp
  | cons p pairs ih =>
    obtain ⟨hp, hpairs⟩ := List.nodup_cons.1 h
    rw [List.foldl_cons, ih hpairs, get_set_partner, List.mem_cons, List.map_cons,
      List.mem_cons]
    by_cases hj : p.2 = j
    · subst hj
      have hnot : (i, p.2) ∉ pairs := fun hm => hp (List.mem_map_of_mem (f := (·.2)) hm)
      simp [hp, hnot, Prod.ext_iff, eq_comm]
    · have hne : (i, j) ≠ p := fun he => hj (he ▸ rfl)
      simp [hj, hne, Ne.symm hj]

theorem get_ofPairs {pairs : List (Fin n × Fin m)} (h : (pairs.map (·.2)).Nodup) (i : Fin n)
    (j : Fin m) : (ofPairs pairs).get j = some i ↔ (i, j) ∈ pairs := by
  have hnone : (Vector.replicate m (none : Option (Fin n))).get j = none :=
    Vector.getElem_replicate j.isLt
  rw [ofPairs, get_foldl_pairs h, hnone]
  simp

theorem pairFirst_cases (same : Fin n → Fin m → Bool) (partners : Partners n m) (i : Fin n) :
    (∃ j, partners.get j = none ∧ same i j ∧
      pairFirst same partners i = partners.set j (some i) j.isLt) ∨
    ((∀ j : Fin m, partners.get j = none → same i j = false) ∧
      pairFirst same partners i = partners) := by
  unfold pairFirst
  split
  · next j hfind =>
    have hj := List.find?_some hfind
    simp only [Bool.and_eq_true, Option.isNone_iff_eq_none] at hj
    exact .inl ⟨j, hj.1, hj.2, rfl⟩
  · next hfind =>
    refine .inr ⟨?_, rfl⟩
    intro j hj
    have h := List.find?_eq_none.1 hfind j (List.mem_finRange j)
    simpa [hj] using h

def Injective (partners : Partners n m) : Prop :=
  ∀ (i : Fin n) (j j' : Fin m), partners.get j = some i → partners.get j' = some i → j = j'

theorem Injective.set {partners : Partners n m} (h : Injective partners) {i : Fin n} (j : Fin m)
    (hi : ∀ j : Fin m, partners.get j ≠ some i) : Injective (partners.set j (some i) j.isLt) := by
  intro i' j₁ j₂ h₁ h₂
  rw [get_set_partner] at h₁ h₂
  split at h₁
  · next e₁ =>
    cases h₁
    split at h₂
    · next e₂ => exact e₁.symm.trans e₂
    · exact absurd h₂ (hi j₂)
  · split at h₂
    · cases h₂
      exact absurd h₁ (hi j₁)
    · exact h i' j₁ j₂ h₁ h₂

structure Paired (same : Fin n → Fin m → Bool) (items : List (Fin n))
    (before after : Partners n m) : Prop where
  kept : ∀ (i : Fin n) (j : Fin m), before.get j = some i → after.get j = some i
  added : ∀ (i : Fin n) (j : Fin m), after.get j = some i →
    before.get j = some i ∨ i ∈ items ∧ same i j
  injective : Injective before → (∀ i ∈ items, ∀ j : Fin m, before.get j ≠ some i) → Injective after
  exhausted : ∀ i ∈ items, (∀ j : Fin m, after.get j ≠ some i) →
    ∀ j : Fin m, after.get j = none → same i j = false

namespace Paired

variable {items : List (Fin n)} {before after : Partners n m} {i : Fin n}

theorem nil : Paired same [] before before where
  kept _ _ h := h
  added _ _ h := .inl h
  injective h _ := h
  exhausted _ h := by cases h

theorem cons_pair {j : Fin m} (hi : i ∉ items) (hj : before.get j = none) (hsame : same i j)
    (h : Paired same items (before.set j (some i) j.isLt) after) :
    Paired same (i :: items) before after where
  kept i' j' hj' := by
    have hne : j ≠ j' := fun he => by simp [← he, hj] at hj'
    exact h.kept i' j' (by rw [get_set_partner, if_neg hne, hj'])
  added i' j' hj' := by
    obtain hbefore | ⟨hmem, hs⟩ := h.added i' j' hj'
    · rw [get_set_partner] at hbefore
      split at hbefore
      · next he =>
        cases hbefore
        exact .inr ⟨List.mem_cons_self, he ▸ hsame⟩
      · exact .inl hbefore
    · exact .inr ⟨List.mem_cons_of_mem _ hmem, hs⟩
  injective hinj hfree := by
    apply h.injective (hinj.set j (hfree i List.mem_cons_self))
    intro i' hi' j' hj'
    rw [get_set_partner] at hj'
    split at hj'
    · cases hj'
      exact hi hi'
    · exact hfree i' (List.mem_cons_of_mem _ hi') j' hj'
  exhausted i' hi' hout := by
    obtain rfl | hi' := List.mem_cons.1 hi'
    · exact absurd (h.kept i' j (by rw [get_set_partner, if_pos rfl])) (hout j)
    · exact h.exhausted i' hi' hout

theorem cons_skip (hnone : ∀ j : Fin m, before.get j = none → same i j = false)
    (h : Paired same items before after) : Paired same (i :: items) before after where
  kept := h.kept
  added i' j' hj' := by
    obtain hbefore | ⟨hmem, hs⟩ := h.added i' j' hj'
    · exact .inl hbefore
    · exact .inr ⟨List.mem_cons_of_mem _ hmem, hs⟩
  injective hinj hfree := h.injective hinj fun i' hi' => hfree i' (List.mem_cons_of_mem _ hi')
  exhausted i' hi' hout j' hj' := by
    obtain rfl | hi' := List.mem_cons.1 hi'
    · apply hnone j'
      rw [Option.eq_none_iff_forall_ne_some]
      intro k hk
      simp [h.kept k j' hk] at hj'
    · exact h.exhausted i' hi' hout j' hj'

end Paired

theorem paired_foldl (same : Fin n → Fin m → Bool) (items : List (Fin n)) (hitems : items.Nodup)
    (partners : Partners n m) :
    Paired same items partners (items.foldl (pairFirst same) partners) := by
  induction items generalizing partners with
  | nil => exact .nil
  | cons i items ih =>
    obtain ⟨hi, hitems⟩ := List.nodup_cons.1 hitems
    have hrest := ih hitems (pairFirst same partners i)
    rw [List.foldl_cons]
    obtain ⟨j, hj, hsame, hfirst⟩ | ⟨hnone, hfirst⟩ := pairFirst_cases same partners i
    · rw [hfirst] at hrest ⊢
      exact hrest.cons_pair hi hj hsame
    · rw [hfirst] at hrest ⊢
      exact hrest.cons_skip hnone

/-- What is known of the partners that two lists get. -/
structure Pairing (same : Fin n → Fin m → Bool) (common : List (Fin n × Fin m))
    (partners : Partners n m) : Prop where
  common : ∀ (i : Fin n) (j : Fin m), i ∈ common.map (·.1) →
    (partners.get j = some i ↔ (i, j) ∈ common)
  related : ∀ (i : Fin n) (j : Fin m), partners.get j = some i → same i j
  injective : Injective partners
  exhausted : ∀ i : Fin n, (∀ j : Fin m, partners.get j ≠ some i) →
    ∀ j : Fin m, partners.get j = none → same i j = false

theorem pairRest_pairing {common : List (Fin n × Fin m)} (h : Common same 0 0 n m common) :
    Pairing same common (pairRest same common) := by
  have hfst : (common.map (·.1)).Nodup :=
    List.pairwise_map.2 (h.ascending.imp fun hp => Fin.ne_of_lt hp.1)
  have hsnd : (common.map (·.2)).Nodup :=
    List.pairwise_map.2 (h.ascending.imp fun hp => Fin.ne_of_lt hp.2)
  have hbase := get_ofPairs hsnd
  have hinj : Injective (ofPairs common) := by
    intro i j j' hj hj'
    have he := List.inj_on_of_nodup_map hfst ((hbase i j).1 hj) ((hbase i j').1 hj') rfl
    exact (Prod.mk.inj he).2
  have hitems : ∀ i, i ∈ (List.finRange n).filter (· ∉ common.map (·.1)) ↔
      i ∉ common.map (·.1) := by
    simp
  -- The pairs of the common subsequence are there first, and to pair the rest keeps them.
  have hp := paired_foldl same _ ((List.nodup_finRange n).filter (· ∉ common.map (·.1)))
    (ofPairs common)
  constructor
  · intro i j hi
    constructor
    · intro hj
      obtain hj | ⟨hmem, -⟩ := hp.added i j hj
      · exact (hbase i j).1 hj
      · exact absurd hi ((hitems i).1 hmem)
    · intro hj
      exact hp.kept i j ((hbase i j).2 hj)
  · intro i j hj
    obtain hj | ⟨-, hs⟩ := hp.added i j hj
    · exact h.same _ ((hbase i j).1 hj)
    · exact hs
  · apply hp.injective hinj
    intro i hi j hj
    exact (hitems i).1 hi (List.mem_map_of_mem ((hbase i j).1 hj))
  · intro i hout
    by_cases hi : i ∈ common.map (·.1)
    · obtain ⟨⟨_, j⟩, hmem, rfl⟩ := List.mem_map.1 hi
      exact absurd (hp.kept _ j ((hbase _ j).2 hmem)) (hout j)
    · exact hp.exhausted i ((hitems i).2 hi) hout

end Noticeboard.Difference
