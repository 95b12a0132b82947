import Mathlib.Data.List.Perm.Subperm
import Noticeboard.Proofs.Difference.Script

namespace Noticeboard

theorem EditScript.structuralLength_eq (s : EditScript) :
    s.structuralLength = s.structural.ops.length :=
  List.countP_eq_length_filter

namespace Difference

open Noticeboard.Alignment

variable {n m : Nat} {same : Fin n → Fin m → Bool} {common : List (Fin n × Fin m)}
  {partners : Partners n m}

theorem length_removes (h : Injective partners) :
    (removes partners).length + (target partners).length = n := by
  have hsplit := List.length_eq_length_filter_add (l := List.finRange n)
    (decide <| some · ∈ partners.toList)
  have hremoved : (removes partners).length =
      ((List.finRange n).filter fun i => !decide (some i ∈ partners.toList)).length := by
    rw [removes, List.length_map, List.filter_reverse, List.length_reverse]
    simp only [decide_not]
  rw [List.length_finRange, ← hremoved] at hsplit
  have hsurvivors : (survivors partners).length = (target partners).length :=
    (perm_survivors_target h).length_eq
  rw [survivors] at hsurvivors
  omega

theorem length_inserts : (inserts partners).length + (target partners).length = m := by
  have hsplit := List.length_eq_length_filter_add (l := List.finRange m)
    fun j => (partners.get j).isNone
  have htarget : (target partners).length =
      ((List.finRange m).filter fun j => !(partners.get j).isNone).length := by
    rw [target, List.length_filterMap_eq_countP, List.countP_eq_length_filter]
    simp only [Option.not_isNone]
  rw [List.length_finRange, ← htarget] at hsplit
  rw [inserts, List.length_map]
  omega

theorem length_moves_le (fixed rest : List (Fin n)) (before : Option (Fin n))
    (current : List (Fin n)) :
    (moves fixed before current rest).length ≤ (rest.filter (· ∉ fixed)).length := by
  induction rest generalizing before current with
  | nil => exact Nat.le_refl 0
  | cons i rest ih =>
    by_cases hfixed : i ∈ fixed
    · rw [moves, if_pos hfixed, List.filter_cons_of_neg (by simpa using hfixed)]
      exact ih _ _
    · rw [List.filter_cons_of_pos (by simpa using hfixed), List.length_cons]
      cases hsource : current.idxOf? i with
      | none =>
        rw [moves, if_neg hfixed, hsource]
        exact Nat.le_succ_of_le (ih _ _)
      | some source =>
        rw [moves_cons hfixed hsource]
        split
        · exact Nat.le_succ_of_le (ih _ _)
        · exact Nat.succ_le_succ (ih _ _)

theorem length_moving_le (h : Pairing same common partners) (hasc : Ascending common) :
    ((target partners).filter (· ∉ common.map (·.1))).length + common.length ≤
      (target partners).length := by
  have hsplit := List.length_eq_length_filter_add (l := target partners)
    (decide <| · ∈ common.map (·.1))
  have hnodup : (common.map (·.1)).Nodup :=
    List.pairwise_map.2 (hasc.imp fun hp => Fin.ne_of_lt hp.1)
  have hstill : common.map (·.1) ⊆ (target partners).filter (· ∈ common.map (·.1)) := by
    intro i hi
    refine List.mem_filter.2 ⟨mem_target.2 ?_, decide_eq_true hi⟩
    obtain ⟨p, hp, rfl⟩ := List.mem_map.1 hi
    exact ⟨p.2, (h.common p.1 p.2 hi).2 hp⟩
  have hcommon := (List.subperm_of_subset hnodup hstill).length_le
  rw [List.length_map] at hcommon
  simp only [decide_not] at hsplit ⊢
  omega

theorem length_steps_le (same : Fin n → Fin m → Bool) :
    (steps same).length + (target (pairRest same (commonSubsequence same))).length +
      (commonSubsequence same).length ≤ n + m := by
  have hpairing := pairing_origin same
  have hremoves := length_removes hpairing.injective
  have hinserts : (inserts (pairRest same (commonSubsequence same))).length +
      (target (pairRest same (commonSubsequence same))).length = m := length_inserts
  have hmoving := length_moving_le hpairing (commonSubsequence_common same).ascending
  have hmoves := length_moves_le ((commonSubsequence same).map (·.1))
    (target (pairRest same (commonSubsequence same))) none
    (survivors (pairRest same (commonSubsequence same)))
  rw [steps, filterMap_toList, List.length_append, List.length_append]
  omega

end Difference

end Noticeboard
