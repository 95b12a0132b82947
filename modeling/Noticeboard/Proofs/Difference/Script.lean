import Noticeboard.Board.Basic
import Noticeboard.Proofs.Difference.Moves
import Mathlib.Data.List.FinRange

namespace Noticeboard

def EditScript.structural (s : EditScript) : EditScript :=
  ⟨s.ops.filter (!·.isChange)⟩

namespace Difference

open Noticeboard.Alignment

variable {n m : Nat}

/-- A script accounts for all items of two lists: `origin j` is the old item that ends at the new
position `j`, if no new item is put in there. -/
structure Accounts (same alike : Fin n → Fin m → Bool) (s : EditScript)
    (origin : Fin m → Option (Fin n)) : Prop where
  split : s.ops = s.structural.ops ++ s.ops.filter Edit.isChange
  /-- The old items removed, by their old indices, are those that end nowhere. -/
  removed : ∀ k, .remove k ∈ s.ops ↔ ∃ i : Fin n, (i : Nat) = k ∧ ∀ j, origin j ≠ some i
  inserted : ∀ k, .insert k ∈ s.ops ↔ ∃ j : Fin m, (j : Nat) = k ∧ origin j = none
  /-- Before the changes every position holds its old item, or else the new one. Since the items
  may be anything, this follows every single item through the script. -/
  arranged : ∀ {α : Type} (old : Fin n → α) (new : Fin m → α),
    s.structural.patch? (List.ofFn old) (List.ofFn new) =
      some (List.ofFn fun j => (origin j).elim (new j) old)
  related : ∀ i j, origin j = some i → same i j
  once : ∀ i j j', origin j = some i → origin j' = some i → j = j'
  changed : ∀ k, .change k ∈ s.ops ↔
    ∃ (j : Fin m) (i : Fin n), (j : Nat) = k ∧ origin j = some i ∧ alike i j = false
  changedOnce : (s.ops.filter Edit.isChange).Nodup
  /-- No removed item is the same as an inserted one. -/
  exhausted : ∀ i j, (∀ j', origin j' ≠ some i) → origin j = none → same i j = false

section

variable {same alike : Fin n → Fin m → Bool} {partners : Partners n m}

theorem exists_move_of_mem {fixed : List (Fin n)} {rest : List (Fin n)} :
    ∀ {before current op}, op ∈ moves fixed before current rest →
      ∃ source target, op = .move source target := by
  induction rest with
  | nil => simp [moves]
  | cons i rest ih =>
    intro before current op hop
    by_cases hfixed : i ∈ fixed
    · rw [moves, if_pos hfixed] at hop
      exact ih hop
    · cases hsource : current.idxOf? i with
      | none =>
        rw [moves, if_neg hfixed, hsource] at hop
        exact ih hop
      | some source =>
        rw [moves_cons hfixed hsource] at hop
        split at hop
        · exact ih hop
        · cases hop with
          | head => exact ⟨_, _, rfl⟩
          | tail _ hop => exact ih hop

theorem mem_removes {op : Edit} : op ∈ removes partners ↔
    ∃ i : Fin n, .remove i = op ∧ ∀ j : Fin m, partners.get j ≠ some i := by
  have hmem : ∀ i : Fin n, some i ∉ partners.toList ↔ ∀ j : Fin m, partners.get j ≠ some i := by
    intro i
    rw [Vector.mem_toList_iff, Vector.mem_iff_getElem]
    constructor
    · intro h j hj
      exact h ⟨j, j.2, hj⟩
    · rintro h ⟨j, hj, he⟩
      exact h ⟨j, hj⟩ he
  simp only [removes, List.mem_map, List.mem_filter, List.mem_reverse, List.mem_finRange,
    true_and, decide_eq_true_eq, hmem]
  constructor
  · rintro ⟨i, hi, rfl⟩
    exact ⟨i, rfl, hi⟩
  · rintro ⟨i, rfl, hi⟩
    exact ⟨i, hi, rfl⟩

theorem mem_inserts {op : Edit} : op ∈ inserts partners ↔
    ∃ j : Fin m, .insert j = op ∧ partners.get j = none := by
  simp only [inserts, List.mem_map, List.mem_filter, List.mem_finRange, true_and,
    Option.isNone_iff_eq_none]
  constructor
  · rintro ⟨j, hj, rfl⟩
    exact ⟨j, rfl, hj⟩
  · rintro ⟨j, rfl, hj⟩
    exact ⟨j, hj, rfl⟩

theorem mem_changes {op : Edit} : op ∈ changes alike partners ↔
    ∃ (j : Fin m) (i : Fin n), .change j = op ∧ partners.get j = some i ∧ alike i j = false := by
  simp only [changes, List.mem_map, List.mem_filter, List.mem_finRange, true_and,
    Option.any_eq_true, Bool.not_eq_true']
  constructor
  · rintro ⟨j, ⟨i, hi, ha⟩, rfl⟩
    exact ⟨j, i, rfl, hi, ha⟩
  · rintro ⟨j, i, rfl, hi, ha⟩
    exact ⟨j, ⟨i, hi, ha⟩, rfl⟩

theorem nodup_changes : (changes alike partners).Nodup := by
  refine List.Pairwise.map _ ?_ ((List.nodup_finRange m).filter _)
  intro j j' hne he
  exact hne (Fin.ext (Edit.change.inj he))

variable (same alike) in
def steps : List Edit :=
  removes (pairRest same (commonSubsequence same)) ++
    moves ((commonSubsequence same).map (·.1)) none
      (survivors (pairRest same (commonSubsequence same)))
      ((pairRest same (commonSubsequence same)).toList.filterMap id) ++
    inserts (pairRest same (commonSubsequence same))

theorem script_ops : (script same alike).ops =
    steps same ++ changes alike (pairRest same (commonSubsequence same)) :=
  rfl

theorem isChange_of_mem_steps {op : Edit} (h : op ∈ steps same) : op.isChange = false := by
  rw [steps, List.mem_append, List.mem_append] at h
  obtain (h | h) | h := h
  · obtain ⟨i, rfl, -⟩ := mem_removes.1 h
    rfl
  · obtain ⟨source, target, rfl⟩ := exists_move_of_mem h
    rfl
  · obtain ⟨j, rfl, -⟩ := mem_inserts.1 h
    rfl

theorem isChange_of_mem_changes {op : Edit} (h : op ∈ changes alike partners) :
    op.isChange = true := by
  obtain ⟨j, i, rfl, -⟩ := mem_changes.1 h
  rfl

theorem structural_script : (script same alike).structural = ⟨steps same⟩ := by
  have hsteps : (steps same).filter (!·.isChange) = steps same :=
    List.filter_eq_self.2 fun op h => by rw [isChange_of_mem_steps h]; rfl
  have hchanges : (changes alike (pairRest same (commonSubsequence same))).filter (!·.isChange) =
      [] :=
    List.filter_eq_nil_iff.2 fun op h => by rw [isChange_of_mem_changes h]; simp
  rw [EditScript.structural, script_ops, List.filter_append, hsteps, hchanges, List.append_nil]

theorem filter_isChange_script : (script same alike).ops.filter Edit.isChange =
    changes alike (pairRest same (commonSubsequence same)) := by
  have hsteps : (steps same).filter Edit.isChange = [] :=
    List.filter_eq_nil_iff.2 fun op h => by rw [isChange_of_mem_steps h]; simp
  have hchanges : (changes alike (pairRest same (commonSubsequence same))).filter Edit.isChange =
      changes alike (pairRest same (commonSubsequence same)) :=
    List.filter_eq_self.2 fun op h => isChange_of_mem_changes h
  rw [script_ops, List.filter_append, hsteps, hchanges, List.nil_append]

end

section

variable {α : Type} (same alike : Fin n → Fin m → Bool) (old : Fin n → α) (new : Fin m → α)

def origin (j : Fin m) : Option (Fin n) :=
  (pairRest same (commonSubsequence same)).get j

theorem pairing_origin :
    Pairing same (commonSubsequence same) (pairRest same (commonSubsequence same)) :=
  pairRest_pairing (commonSubsequence_common same)

theorem patch?_steps : (⟨steps same⟩ : EditScript).patch? (List.ofFn old) (List.ofFn new) =
    some (List.ofFn (placed old new (origin same))) := by
  rw [steps, EditScript.patch?_append, EditScript.patch?_append, List.ofFn_eq_map,
    List.ofFn_eq_map, List.ofFn_eq_map, patch?_removes, Option.bind_some,
    patch?_moves old (pairing_origin same) (commonSubsequence_common same).ascending,
    Option.bind_some, patch?_inserts]
  rfl

theorem renewed_eq_elim (origin : Fin m → Option (Fin n)) (j : Fin m) :
    renewed old new origin alike j =
      (origin j).elim (new j) fun i => if alike i j then old i else new j := by
  cases h : origin j with
  | none => simp [renewed, placed, h]
  | some i => cases ha : alike i j <;> simp [renewed, placed, h, ha]

theorem patch?_script : (script same alike).patch? (List.ofFn old) (List.ofFn new) =
    some (List.ofFn fun j =>
      (origin same j).elim (new j) fun i => if alike i j then old i else new j) := by
  simp only [← renewed_eq_elim]
  have hsplit : script same alike =
      ⟨steps same ++ changes alike (pairRest same (commonSubsequence same))⟩ := rfl
  rw [hsplit, EditScript.patch?_append, patch?_steps, Option.bind_some, List.ofFn_eq_map,
    List.ofFn_eq_map, List.ofFn_eq_map]
  exact patch?_changes old new alike _

theorem mem_script {op : Edit} (hop : ∀ source target, op ≠ .move source target) :
    op ∈ (script same alike).ops ↔
      op ∈ removes (pairRest same (commonSubsequence same)) ∨
      op ∈ inserts (pairRest same (commonSubsequence same)) ∨
      op ∈ changes alike (pairRest same (commonSubsequence same)) := by
  have hmoves : op ∉ moves ((commonSubsequence same).map (·.1)) none
      (survivors (pairRest same (commonSubsequence same)))
      ((pairRest same (commonSubsequence same)).toList.filterMap id) := by
    intro h
    obtain ⟨source, target, he⟩ := exists_move_of_mem h
    exact hop source target he
  simp only [script_ops, steps, List.mem_append, hmoves, or_false, or_assoc]

theorem remove_mem_script (k : Nat) : .remove k ∈ (script same alike).ops ↔
    ∃ i : Fin n, (i : Nat) = k ∧ ∀ j, origin same j ≠ some i := by
  rw [mem_script same alike (by simp), mem_removes, mem_inserts, mem_changes]
  simp [origin]

theorem insert_mem_script (k : Nat) : .insert k ∈ (script same alike).ops ↔
    ∃ j : Fin m, (j : Nat) = k ∧ origin same j = none := by
  rw [mem_script same alike (by simp), mem_removes, mem_inserts, mem_changes]
  simp [origin]

theorem change_mem_script (k : Nat) : .change k ∈ (script same alike).ops ↔
    ∃ (j : Fin m) (i : Fin n), (j : Nat) = k ∧ origin same j = some i ∧ alike i j = false := by
  rw [mem_script same alike (by simp), mem_removes, mem_inserts, mem_changes]
  simp [origin]

theorem accounts_script : Accounts same alike (script same alike) (origin same) where
  split := by
    rw [structural_script, filter_isChange_script]
    rfl
  removed := remove_mem_script same alike
  inserted := insert_mem_script same alike
  arranged old new := by
    rw [structural_script]
    exact patch?_steps same old new
  related := (pairing_origin same).related
  once := (pairing_origin same).injective
  changed := change_mem_script same alike
  changedOnce := by
    rw [filter_isChange_script]
    exact nodup_changes
  exhausted i j hi hj := (pairing_origin same).exhausted i hi j hj

end

end Difference

open Difference

def Difference.between {α : Type} (r : α → α → Bool) (old new : List α) (i : Fin old.length)
    (j : Fin new.length) : Bool :=
  r (old.get i) (new.get j)

section

variable {α : Type} (c : Comparison α) (old new : List α)

theorem ofFn_get (items : List α) : List.ofFn items.get = items :=
  List.ofFn_getElem

theorem Comparison.patch?_structural :
    (c.script old new).structural.patch? old new =
      some (List.ofFn fun j => (origin (between c.same old new) j).elim (new.get j) old.get) := by
  have h := (accounts_script (between c.same old new) (between c.alike old new)).arranged
    old.get new.get
  rwa [ofFn_get, ofFn_get] at h

theorem Comparison.patch?_eq_ofFn : (c.script old new).patch? old new =
    some (List.ofFn fun j => (origin (between c.same old new) j).elim (new.get j) fun i =>
      if c.alike (old.get i) (new.get j) then old.get i else new.get j) := by
  have h := patch?_script (between c.same old new) (between c.alike old new) old.get new.get
  rwa [ofFn_get, ofFn_get] at h

theorem Comparison.patch?_of_eq (h : ∀ a b, c.same a b → c.alike a b → a = b) :
    (c.script old new).patch? old new = some new := by
  have hitem : ∀ j, ((origin (between c.same old new) j).elim (new.get j) fun i =>
      if c.alike (old.get i) (new.get j) then old.get i else new.get j) = new.get j := by
    intro j
    cases hj : origin (between c.same old new) j with
    | none => rfl
    | some i =>
      have hsame := (pairing_origin (between c.same old new)).related i j hj
      rw [Option.elim_some, ite_eq_right_iff]
      exact fun halike => h _ _ hsame halike
  rw [c.patch?_eq_ofFn, funext hitem]
  exact congrArg some (ofFn_get new)

example : (⟨(·.1 == ·.1), (·.2 == ·.2)⟩ : Comparison (Char × Nat)).script
    [('a', 0), ('b', 0), ('c', 0)] [('c', 1), ('x', 0), ('a', 0)] =
      ⟨[.remove 1, .move 0 1, .insert 1, .change 0]⟩ := by
  decide +kernel

end

theorem Card.patch?_comparison (old new : List Card) :
    (Card.comparison.script old new).patch? old new = some new :=
  Card.comparison.patch?_of_eq old new fun _ _ _ h => absurd h Bool.false_ne_true

/-- The script of two lists can always be made and replayed, and it accounts for all items. -/
theorem Comparison.script_replays :
    (∀ (α : Type) (c : Comparison α) (old new : List α),
      (Alignment.path? (between c.same old new)).isSome ∧
      (∃ origin : Fin new.length → Option (Fin old.length),
        Accounts (between c.same old new) (between c.alike old new) (c.script old new) origin ∧
        (c.script old new).structural.patch? old new =
          some (List.ofFn fun j => (origin j).elim (new.get j) old.get) ∧
        (c.script old new).patch? old new =
          some (List.ofFn fun j => (origin j).elim (new.get j) fun i =>
            if c.alike (old.get i) (new.get j) then old.get i else new.get j)) ∧
      ((∀ a b, c.same a b → c.alike a b → a = b) →
        (c.script old new).patch? old new = some new)) ∧
    ∀ old new : List Card, (Card.comparison.script old new).patch? old new = some new := by
  refine ⟨?_, Card.patch?_comparison⟩
  intro α c old new
  obtain ⟨pairs, d, hpath, -⟩ := Alignment.path?_spec (between c.same old new)
  refine ⟨?_, ⟨_, accounts_script _ _, ?_, ?_⟩, c.patch?_of_eq old new⟩
  · rw [hpath]
    rfl
  · exact c.patch?_structural old new
  · exact c.patch?_eq_ofFn old new

end Noticeboard
