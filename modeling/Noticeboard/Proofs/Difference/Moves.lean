import Noticeboard.Proofs.Difference.Replay
import Mathlib.Data.List.Sort

namespace Noticeboard.Difference

open Noticeboard.Alignment

variable {n m : Nat} {α : Type} (old : Fin n → α)

theorem idxOf?_append_cons {i : Fin n} {as bs : List (Fin n)} (h : i ∉ as) :
    (as ++ i :: bs).idxOf? i = some as.length := by
  induction as with
  | nil => simp [List.idxOf?_cons]
  | cons a as ih =>
    simp only [List.mem_cons, not_or] at h
    simp [List.idxOf?_cons, Ne.symm h.1, ih h.2]

def slot (before : Option (Fin n)) (others : List (Fin n)) : Nat :=
  match before.bind others.idxOf? with
  | some p => p + 1
  | none => 0

/-- The items that have had their turn, `done`, and those that stand still. -/
def settled (fixed done : List (Fin n)) (i : Fin n) : Bool :=
  done.contains i || fixed.contains i

section

variable {fixed done rest others : List (Fin n)}

/-- The place behind the last item that has had its turn parts the settled items into those that
have had it and those to come. -/
theorem exists_slot (hothers : others.Nodup)
    (h : others.filter (settled fixed done) = done ++ rest) :
    ∃ cs ds, others = cs ++ ds ∧ slot done.getLast? others = cs.length ∧
      cs.filter (settled fixed done) = done ∧ ds.filter (settled fixed done) = rest := by
  obtain rfl | ⟨earlier, p, hlast⟩ := List.eq_nil_or_concat done
  · exact ⟨[], others, rfl, rfl, rfl, by simpa using h⟩
  · rw [List.concat_eq_append] at hlast
    subst hlast
    have hsettled : settled fixed (earlier ++ [p]) p = true := by simp [settled]
    have hp : p ∈ others.filter (settled fixed (earlier ++ [p])) := by
      rw [h]
      simp
    obtain ⟨cs, ds, rfl⟩ := List.append_of_mem (List.mem_filter.1 hp).1
    obtain ⟨-, hcons, hne⟩ := List.nodup_append.1 hothers
    have hcs : p ∉ cs := fun hm => hne p hm p List.mem_cons_self rfl
    have hds : p ∉ ds := (List.nodup_cons.1 hcons).1
    rw [List.filter_append, List.filter_cons, if_pos hsettled, List.append_assoc,
      List.singleton_append] at h
    obtain ⟨hcs', -, hds'⟩ := (List.append_cons_inj_of_notMem
      (fun hm => hcs (List.mem_filter.1 hm).1) (fun hm => hds (List.mem_filter.1 hm).1)).1 h
    refine ⟨cs ++ [p], ds, by simp, ?_, ?_, hds'⟩
    · simp [slot, idxOf?_append_cons hcs]
    · rw [List.filter_append, hcs', List.filter_cons, if_pos hsettled, List.filter_nil]

theorem settled_append (i : Fin n) : settled fixed (done ++ [i]) = fun j =>
    settled fixed done j || decide (j = i) := by
  funext j
  rw [Bool.eq_iff_iff]
  simp only [settled, List.contains_iff_mem, List.mem_append, List.mem_singleton,
    decide_eq_true_eq, Bool.or_eq_true]
  exact or_right_comm

theorem filter_settled_append {i : Fin n} {items : List (Fin n)} (h : i ∉ items) :
    items.filter (settled fixed (done ++ [i])) = items.filter (settled fixed done) := by
  apply List.filter_congr
  intro j hj
  have hne : j ≠ i := fun he => h (he ▸ hj)
  simp [settled_append, hne]

theorem settled_append_of_mem {i : Fin n} (h : i ∈ fixed) :
    settled fixed (done ++ [i]) = settled fixed done := by
  funext j
  rw [settled_append]
  by_cases hj : j = i
  · simp [hj, settled, h]
  · simp [hj]

theorem filter_settled_middle {i : Fin n} {cs ds : List (Fin n)} (hcs : i ∉ cs) (hds : i ∉ ds) :
    (cs ++ i :: ds).filter (settled fixed (done ++ [i])) =
      cs.filter (settled fixed done) ++ i :: ds.filter (settled fixed done) := by
  have hi : settled fixed (done ++ [i]) i = true := by simp [settled]
  rw [List.filter_append, List.filter_cons_of_pos hi, filter_settled_append hcs,
    filter_settled_append hds]

/-- An item that is not settled yet has a slot among the others, and there it is in order. -/
theorem exists_move {i : Fin n} {current : List (Fin n)} (hfixed : i ∉ fixed)
    (hnodup : (done ++ i :: rest).Nodup) (hperm : current.Perm (done ++ i :: rest))
    (horder : current.filter (settled fixed done) =
      done ++ (i :: rest).filter (settled fixed done)) :
    ∃ as bs cs ds, current = as ++ i :: bs ∧ i ∉ as ∧ as ++ bs = cs ++ ds ∧
      slot done.getLast? (as ++ bs) = cs.length ∧ (cs ++ i :: ds).Perm (done ++ i :: rest) ∧
      (cs ++ i :: ds).filter (settled fixed (done ++ [i])) =
        done ++ i :: rest.filter (settled fixed (done ++ [i])) := by
  obtain ⟨-, hrest, hdone⟩ := List.nodup_append.1 hnodup
  have hnotdone : i ∉ done := fun hm => hdone i hm i List.mem_cons_self rfl
  have hnotrest : i ∉ rest := (List.nodup_cons.1 hrest).1
  have hi : ¬ settled fixed done i = true := by simp [settled, hfixed, hnotdone]
  have hmem : i ∈ current := hperm.mem_iff.2 (List.mem_append_right _ List.mem_cons_self)
  obtain ⟨as, bs, rfl⟩ := List.append_of_mem hmem
  have hmiddle : (as ++ i :: bs).Perm (i :: (as ++ bs)) := List.perm_middle
  obtain ⟨hothers, hnd⟩ := List.nodup_cons.1 (hmiddle.nodup_iff.1 (hperm.nodup_iff.2 hnodup))
  rw [List.filter_append, List.filter_cons_of_neg hi, List.filter_cons_of_neg hi,
    ← List.filter_append] at horder
  obtain ⟨cs, ds, hsplit, hslot, hcs, hds⟩ := exists_slot hnd horder
  refine ⟨as, bs, cs, ds, rfl, fun hm => hothers (List.mem_append_left _ hm), hsplit, hslot, ?_, ?_⟩
  · exact (List.perm_middle.trans (hsplit ▸ hmiddle.symm)).trans hperm
  · rw [hsplit, List.mem_append, not_or] at hothers
    rw [filter_settled_middle hothers.1 hothers.2, filter_settled_append hnotrest, hcs, hds]

theorem moves_cons {i : Fin n} {before : Option (Fin n)} {current : List (Fin n)} {source : Nat}
    (hfixed : i ∉ fixed) (hsource : current.idxOf? i = some source) :
    moves fixed before current (i :: rest) =
      if source = slot before (current.eraseIdx source) then
        moves fixed (some i)
          ((current.eraseIdx source).insertIdx (slot before (current.eraseIdx source)) i) rest
      else
        .move source (slot before (current.eraseIdx source)) :: moves fixed (some i)
          ((current.eraseIdx source).insertIdx (slot before (current.eraseIdx source)) i) rest := by
  rw [moves, if_neg hfixed, hsource]
  rfl

/-- One item is taken out and put into its slot, by a move unless it is there already. -/
theorem patch?_moves_cons {i : Fin n} {before : Option (Fin n)} {as bs cs ds : List (Fin n)}
    (hfixed : i ∉ fixed) (has : i ∉ as) (hsplit : as ++ bs = cs ++ ds)
    (hslot : slot before (as ++ bs) = cs.length) (new : List α) :
    (⟨moves fixed before (as ++ i :: bs) (i :: rest)⟩ : EditScript).patch?
        ((as ++ i :: bs).map old) new =
      (⟨moves fixed (some i) (cs ++ i :: ds) rest⟩ : EditScript).patch?
        ((cs ++ i :: ds).map old) new := by
  have herase : (as ++ i :: bs).eraseIdx as.length = cs ++ ds := by
    rw [List.eraseIdx_append_of_length_le (Nat.le_refl _)]
    simpa using hsplit
  rw [moves_cons hfixed (idxOf?_append_cons has), herase, ← hsplit, hslot, hsplit,
    Edit.insertIdx_append]
  split
  · next hlen =>
    obtain ⟨rfl, rfl⟩ := List.append_inj hsplit hlen
    rfl
  · have hmaps : as.map old ++ bs.map old = cs.map old ++ ds.map old := by
      rw [← List.map_append, hsplit, List.map_append]
    have hstep := Edit.patch?_move_append new (old i) hmaps
    rw [List.length_map, List.length_map] at hstep
    rw [EditScript.patch?_cons, List.map_append, List.map_cons, hstep, Option.bind_some,
      List.map_append, List.map_cons]

theorem patch?_moves_suffix (fixed : List (Fin n)) (new : List α) (done rest current : List (Fin n))
    (hnodup : (done ++ rest).Nodup) (hperm : current.Perm (done ++ rest))
    (horder : current.filter (settled fixed done) = done ++ rest.filter (settled fixed done)) :
    (⟨moves fixed done.getLast? current rest⟩ : EditScript).patch? (current.map old) new =
      some ((done ++ rest).map old) := by
  -- The settled items stand in their final order throughout, and each item in turn joins them.
  induction rest generalizing done current with
  | nil =>
    have hall : current.filter (settled fixed done) = current := by
      apply List.filter_eq_self.2
      intro i hi
      have hmem := hperm.mem_iff.1 hi
      rw [List.append_nil] at hmem
      simp [settled, hmem]
    rw [hall, List.filter_nil] at horder
    rw [horder]
    rfl
  | cons i rest ih =>
    have hassoc : done ++ i :: rest = done ++ [i] ++ rest := List.append_cons done i rest
    have hlast : (done ++ [i]).getLast? = some i := List.getLast?_concat
    by_cases hfixed : i ∈ fixed
    · have hi : settled fixed done i = true := by simp [settled, hfixed]
      rw [List.filter_cons_of_pos hi, List.append_cons] at horder
      have hnext := ih (done ++ [i]) current (hassoc ▸ hnodup) (hassoc ▸ hperm)
        (by rw [settled_append_of_mem hfixed, horder])
      rw [hlast] at hnext
      simpa only [moves, hfixed, if_true, hassoc] using hnext
    · obtain ⟨as, bs, cs, ds, rfl, has, hsplit, hslot, hmoved, hsettled⟩ :=
        exists_move hfixed hnodup hperm horder
      rw [patch?_moves_cons old hfixed has hsplit hslot, hassoc, ← hlast]
      exact ih (done ++ [i]) (cs ++ i :: ds) (hassoc ▸ hnodup) (hassoc ▸ hmoved)
        (hsettled.trans (List.append_cons _ _ _))

end

variable {same : Fin n → Fin m → Bool} {common : List (Fin n × Fin m)} {partners : Partners n m}

theorem filterMap_toList (partners : Partners n m) :
    partners.toList.filterMap id = target partners := by
  have h : partners.toList = (List.finRange m).map fun j => partners.get j := by
    apply List.ext_getElem (by simp)
    intro i hi _
    rw [Vector.getElem_toList, List.getElem_map, List.getElem_finRange]
    rfl
  rw [h, List.filterMap_map]
  rfl

theorem mem_target {i : Fin n} : i ∈ target partners ↔ ∃ j : Fin m, partners.get j = some i := by
  simp [target]

theorem mem_survivors {i : Fin n} :
    i ∈ survivors partners ↔ ∃ j : Fin m, partners.get j = some i := by
  rw [survivors, List.mem_filter, decide_eq_true_eq, Vector.mem_toList_iff, Vector.mem_iff_getElem]
  constructor
  · rintro ⟨-, j, hj, h⟩
    exact ⟨⟨j, hj⟩, h⟩
  · rintro ⟨j, h⟩
    exact ⟨List.mem_finRange i, j, j.2, h⟩

theorem nodup_target (h : Injective partners) : (target partners).Nodup := by
  refine List.pairwise_filterMap.2 ((List.pairwise_lt_finRange m).imp ?_)
  intro j j' hlt i hi i' hi' he
  subst he
  exact absurd (h i j j' hi hi') (Fin.ne_of_lt hlt)

theorem perm_survivors_target (h : Injective partners) :
    (survivors partners).Perm (target partners) := by
  refine (List.perm_ext_iff_of_nodup ((List.nodup_finRange n).filter _) (nodup_target h)).2 ?_
  exact fun i => mem_survivors.trans mem_target.symm

theorem pairwise_target_fixed (h : Pairing same common partners) (hasc : Ascending common) :
    ((target partners).filter (settled (common.map (·.1)) [])).Pairwise (· < ·) := by
  refine List.pairwise_filter.2 (List.pairwise_filterMap.2 ((List.pairwise_lt_finRange m).imp ?_))
  intro j j' hlt i hi i' hi' hfixed hfixed'
  simp only [settled, List.contains_nil, Bool.false_or, List.contains_iff_mem] at hfixed hfixed'
  exact hasc.fst_lt ((h.common i j hfixed).1 hi) ((h.common i' j' hfixed').1 hi') hlt

theorem filter_survivors_eq (h : Pairing same common partners) (hasc : Ascending common) :
    (survivors partners).filter (settled (common.map (·.1)) []) =
      (target partners).filter (settled (common.map (·.1)) []) := by
  have hleft : ((survivors partners).filter (settled (common.map (·.1)) [])).Pairwise (· < ·) :=
    ((List.pairwise_lt_finRange n).filter _).filter _
  apply hleft.eq_of_mem_iff (pairwise_target_fixed h hasc)
  intro i
  rw [List.mem_filter, List.mem_filter, mem_survivors, mem_target]

theorem patch?_moves (h : Pairing same common partners) (hasc : Ascending common) (new : List α) :
    (⟨moves (common.map (·.1)) none (survivors partners) (partners.toList.filterMap id)⟩ :
      EditScript).patch? ((survivors partners).map old) new =
      some ((target partners).map old) := by
  rw [filterMap_toList]
  exact patch?_moves_suffix old (common.map (·.1)) new [] (target partners) (survivors partners)
    (nodup_target h.injective) (perm_survivors_target h.injective) (filter_survivors_eq h hasc)

end Noticeboard.Difference
