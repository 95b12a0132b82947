import Noticeboard.Proofs.Alignment.Longest
import Noticeboard.Proofs.Difference.Length
import Noticeboard.Proofs.Difference.Matching
import Noticeboard.Proofs.Difference.Trail

namespace Noticeboard

namespace Difference

open Noticeboard.Alignment

variable {n m : Nat} {α : Type} {same : Fin n → Fin m → Bool} {old : Fin n → α} {steps : Nat}
  {trail : Fin m → Trail n α} {current : List α}

namespace Traced

theorem length_stayed_le (h : Traced old steps ((List.finRange m).map trail) current)
    (hsame : ∀ i j, (trail j).origin? = some i → same i j) :
    (((List.finRange m).map trail).filterMap Trail.stayed?).length ≤
      (commonSubsequence same).length := by
  have hascending := h.ascending
  rw [List.filterMap_map, List.pairwise_filterMap] at hascending
  let place (j : Fin m) : Option (Fin n × Fin m) := (trail j).stayed?.map fun i => (i, j)
  have hplace : ∀ j p, place j = some p → (trail j).stayed? = some p.1 ∧ j = p.2 := by
    intro j p hp
    obtain ⟨i, hi, rfl⟩ := Option.map_eq_some_iff.1 hp
    exact ⟨hi, rfl⟩
  have hpairs : Ascending ((List.finRange m).filterMap place) := by
    refine List.pairwise_filterMap.2 ((hascending.and (List.pairwise_lt_finRange m)).imp ?_)
    intro j j' hlt p hp q hq
    obtain ⟨hp, rfl⟩ := hplace j p hp
    obtain ⟨hq, rfl⟩ := hplace j' q hq
    exact ⟨hlt.1 p.1 hp q.1 hq, hlt.2⟩
  have hlength : (((List.finRange m).map trail).filterMap Trail.stayed?).length =
      ((List.finRange m).filterMap place).length := by
    rw [List.filterMap_map, List.length_filterMap_eq_countP, List.length_filterMap_eq_countP]
    apply List.countP_congr
    intro j _
    rw [Option.isSome_map]
    rfl
  rw [hlength]
  apply length_le_commonSubsequence hpairs
  intro p hp
  obtain ⟨j, -, hj⟩ := List.mem_filterMap.1 hp
  obtain ⟨hstayed, rfl⟩ := hplace j p hj
  exact hsame p.1 p.2 (Trail.origin?_of_stayed? hstayed)

theorem matching (h : Traced old steps ((List.finRange m).map trail) current)
    (hsame : ∀ i j, (trail j).origin? = some i → same i j) :
    Matching same fun j => (trail j).origin? where
  related := hsame
  once i j j' hj hj' := by
    have honce := h.once
    rw [List.filterMap_map, List.Nodup, List.pairwise_filterMap] at honce
    by_contra hne
    have hsymm : Std.Symm fun j j' : Fin m => ∀ a ∈ (Trail.origin? ∘ trail) j,
        ∀ b ∈ (Trail.origin? ∘ trail) j', a ≠ b :=
      ⟨fun _ _ hab b hb a ha => (hab a ha b hb).symm⟩
    exact honce.forall (List.mem_finRange j) (List.mem_finRange j') hne i hj i hj' rfl

theorem length_steps_le (h : Traced old steps ((List.finRange m).map trail) current)
    (hsorts : Sorts same) (hsame : ∀ i j, (trail j).origin? = some i → same i j) :
    (Difference.steps same).length ≤ steps := by
  have hstayed := h.length_stayed_le hsame
  have horigin := (pairing_origin same).length_le_target hsorts (h.matching hsame)
  have hscript := Difference.length_steps_le same
  have hcost := h.cost
  rw [List.length_map, List.length_finRange, List.filterMap_map (g := Trail.origin?)] at hcost
  change ((List.finRange m).filterMap (Trail.origin? ∘ trail)).length ≤ _ at horigin
  omega

end Traced

end Difference

open Difference

namespace Comparison

variable {α : Type} (c : Comparison α) {old new : List α}

/-- Steps without changes that make of the old list one whose items are the same as the new ones,
place by place. -/
def Reaches (old new : List α) (ops : List Edit) : Prop :=
  (∀ op ∈ ops, op.isChange = false) ∧
    ∃ result, (⟨ops⟩ : EditScript).patch? old new = some result ∧
      List.Forall₂ (fun a b => c.same a b) result new

theorem reaches_structural (hrefl : ∀ a, c.same a a) :
    c.Reaches old new (c.script old new).structural.ops := by
  refine ⟨?_, _, c.patch?_structural old new, ?_⟩
  · intro op hop
    have hstep := (List.mem_filter.1 hop).2
    rwa [Bool.not_eq_true'] at hstep
  · rw [List.forall₂_iff_get]
    refine ⟨List.length_ofFn, ?_⟩
    intro j hj hj'
    rw [List.get_ofFn]
    change c.same ((origin (between c.same old new) ⟨j, hj'⟩).elim _ _) _
    cases horigin : origin (between c.same old new) ⟨j, hj'⟩ with
    | none => exact hrefl _
    | some i => exact (pairing_origin (between c.same old new)).related i ⟨j, hj'⟩ horigin

theorem sorts_between (hc : Equivalence fun a b => c.same a b = true) :
    Sorts (between c.same old new) := by
  intro i i' j j' hij hij' hi'j
  exact hc.trans hi'j (hc.trans (hc.symm hij) hij')

theorem length_steps_le (hc : Equivalence fun a b => c.same a b = true) {ops : List Edit}
    (hops : c.Reaches old new ops) : (steps (between c.same old new)).length ≤ ops.length := by
  obtain ⟨hstructural, result, hpatch, hresult⟩ := hops
  have hstart := Traced.start old.get
  have hold : (List.finRange old.length).map old.get = old := List.map_get_finRange old
  rw [hold] at hstart
  obtain ⟨trails, htraced⟩ := hstart.patch?_script hstructural hpatch
  rw [Nat.zero_add] at htraced
  rw [← htraced.items, List.forall₂_map_left_iff, List.forall₂_iff_get] at hresult
  obtain ⟨hlength, hplaces⟩ := hresult
  let trail (j : Fin new.length) : Trail old.length α := trails.get (j.cast hlength.symm)
  have htrails : trails = (List.finRange new.length).map trail := by
    apply List.ext_getElem
    · rw [List.length_map, List.length_finRange, hlength]
    · intro j hj hj'
      rw [List.getElem_map, List.getElem_finRange]
      rfl
  have hsame : ∀ i j, (trail j).origin? = some i → between c.same old new i j := by
    intro i j hi
    have hj : c.same ((trail j).item old.get) (new.get j) :=
      hplaces j (hlength.symm ▸ j.2) j.2
    rwa [Trail.item_of_origin? hi old.get] at hj
  rw [htrails] at htraced
  exact htraced.length_steps_le (c.sorts_between hc) hsame

/-- Where the comparison is an equivalence, its script is a shortest one: apart from the changes it
is one of the scripts that make the old list the same as the new one, and none of these has fewer
steps. -/
theorem script_shortest (hc : Equivalence fun a b => c.same a b = true) (old new : List α) :
    c.Reaches old new (c.script old new).structural.ops ∧
    (c.script old new).structural.ops.length = (c.script old new).structuralLength ∧
    ∀ ops, c.Reaches old new ops → (c.script old new).structuralLength ≤ ops.length := by
  refine ⟨c.reaches_structural hc.refl, (EditScript.structuralLength_eq _).symm, ?_⟩
  intro ops hops
  have hscript : (c.script old new).structural = ⟨steps (between c.same old new)⟩ :=
    structural_script
  rw [EditScript.structuralLength_eq, hscript]
  exact c.length_steps_le hc hops

def byName : Comparison (Char × Nat) where
  same a b := a.1 == b.1
  alike a b := a.2 == b.2

theorem equivalence_byName : Equivalence fun a b => byName.same a b = true where
  refl _ := beq_self_eq_true _
  symm h := beq_iff_eq.2 (beq_iff_eq.1 h).symm
  trans h h' := beq_iff_eq.2 ((beq_iff_eq.1 h).trans (beq_iff_eq.1 h'))

theorem structuralLength_byName :
    byName.Reaches [('a', 0), ('b', 0), ('a', 1)] [('b', 2), ('a', 2), ('a', 1), ('c', 0)]
      [.move 0 1, .insert 3] ∧
    (byName.script [('a', 0), ('b', 0), ('a', 1)]
      [('b', 2), ('a', 2), ('a', 1), ('c', 0)]).structuralLength ≤ 2 := by
  have hreaches : byName.Reaches [('a', 0), ('b', 0), ('a', 1)]
      [('b', 2), ('a', 2), ('a', 1), ('c', 0)] [.move 0 1, .insert 3] :=
    ⟨by decide, [('b', 0), ('a', 0), ('a', 1), ('c', 0)], by decide, by decide⟩
  exact ⟨hreaches, (byName.script_shortest equivalence_byName _ _).2.2 _ hreaches⟩

end Comparison

end Noticeboard
