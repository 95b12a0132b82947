import Noticeboard.Edit.Alignment
import Noticeboard.Edit.Basic

namespace Noticeboard

/-- What is compared: whether two items are the same item, and whether the same item still has the
same content. -/
structure Comparison (α : Type) where
  same : α → α → Bool
  alike : α → α → Bool

namespace Difference

variable {n m : Nat}

/-- For each new index the old item that takes its place, if there is one. -/
abbrev Partners (n m : Nat) := Vector (Option (Fin n)) m

def ofPairs (pairs : List (Fin n × Fin m)) : Partners n m :=
  pairs.foldl (fun partners (i, j) => partners.set j (some i) j.isLt) (Vector.replicate m none)

/-- Pair an old item with the first new item that is the same and has no partner. -/
def pairFirst (same : Fin n → Fin m → Bool) (partners : Partners n m) (i : Fin n) :
    Partners n m :=
  match (List.finRange m).find? fun j => (partners.get j).isNone && same i j with
  | some j => partners.set j (some i) j.isLt
  | none => partners

/-- Pair what the common subsequence leaves over, in the order of the old items. -/
def pairRest (same : Fin n → Fin m → Bool) (common : List (Fin n × Fin m)) : Partners n m :=
  ((List.finRange n).filter (· ∉ common.map (·.1))).foldl (pairFirst same) (ofPairs common)

def removes (partners : Partners n m) : List Edit :=
  ((List.finRange n).reverse.filter (some · ∉ partners.toList)).map fun i : Fin n => .remove i

def survivors (partners : Partners n m) : List (Fin n) :=
  (List.finRange n).filter (some · ∈ partners.toList)

/-- Bring the items of a target order into place one by one, each right behind the one before it.
Those of the common subsequence stand still. -/
def moves (fixed : List (Fin n)) : Option (Fin n) → List (Fin n) → List (Fin n) → List Edit
  | _, _, [] => []
  | before, current, i :: rest =>
    if i ∈ fixed then moves fixed (some i) current rest
    else
      match current.idxOf? i with
      | none => moves fixed (some i) current rest
      | some source =>
        let shorter := current.eraseIdx source
        let target := match before.bind shorter.idxOf? with
          | some p => p + 1
          | none => 0
        let later := moves fixed (some i) (shorter.insertIdx target i) rest
        if source = target then later else .move source target :: later

def inserts (partners : Partners n m) : List Edit :=
  ((List.finRange m).filter fun j => (partners.get j).isNone).map fun j : Fin m => .insert j

def changes (alike : Fin n → Fin m → Bool) (partners : Partners n m) : List Edit :=
  ((List.finRange m).filter fun j => (partners.get j).any fun i => !alike i j).map
    fun j : Fin m => .change j

/-- The script for two lists of which only the relations of their items are known. Removes go from
the last to the first, moves from the first target to the last, then come inserts and changes at
their final positions. -/
def script (same alike : Fin n → Fin m → Bool) : EditScript :=
  let common := Alignment.commonSubsequence same
  let partners := pairRest same common
  ⟨removes partners ++
    moves (common.map (·.1)) none (survivors partners) (partners.toList.filterMap id) ++
    inserts partners ++ changes alike partners⟩

end Difference

def Comparison.script {α : Type} (c : Comparison α) (old new : List α) : EditScript :=
  Difference.script (fun i j => c.same (old.get i) (new.get j))
    (fun i j => c.alike (old.get i) (new.get j))

end Noticeboard
