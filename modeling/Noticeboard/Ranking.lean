import Noticeboard.Json.Reader
import Std.Data.ExtTreeMap

namespace Noticeboard

inductive Importance where
  | min
  | low
  | default
  | high
  deriving DecidableEq, Repr

namespace Importance

def all : List Importance :=
  [min, low, default, high]

def name : Importance → String
  | min => "min"
  | low => "low"
  | default => "default"
  | high => "high"

def level : Importance → Nat
  | min => 0
  | low => 1
  | default => 2
  | high => 3

instance : Ord Importance :=
  ⟨fun a b => compare a.level b.level⟩

instance : LT Importance :=
  ⟨fun a b => a.level < b.level⟩

instance : LE Importance :=
  ⟨fun a b => a.level ≤ b.level⟩

instance : DecidableLT Importance := fun a b =>
  inferInstanceAs (Decidable (a.level < b.level))

instance : DecidableLE Importance := fun a b =>
  inferInstanceAs (Decidable (a.level ≤ b.level))

def ofJson : Reader Importance :=
  Json.asVariant (all.map fun i => (i.name, i))

def toJson (i : Importance) : Json :=
  .str i.name

end Importance

/-- The place of one record: a lower rank comes first. -/
structure Placement where
  importance : Importance
  rank : Int32
  deriving DecidableEq

namespace Placement

def shape : Shape Placement :=
  Placement.mk <$> .required "importance" Importance.ofJson <*> .required "rank" Json.asInt32

def ofJson : Reader Placement :=
  shape.read

def toJson (p : Placement) : Json :=
  .obj [("importance", p.importance.toJson), ("rank", .int p.rank.toInt)]

end Placement

structure Ranking where
  places : Std.ExtTreeMap String Placement := ∅
  deriving DecidableEq

namespace Ranking

def empty : Ranking :=
  {}

def insert (r : Ranking) (key : String) (p : Placement) : Ranking :=
  ⟨r.places.insert key p⟩

/-- The last place of a key counts. -/
def ofList (places : List (String × Placement)) : Ranking :=
  places.foldl (fun r (key, p) => r.insert key p) empty

def toList (r : Ranking) : List (String × Placement) :=
  r.places.toList

def get? (r : Ranking) (key : String) : Option Placement :=
  r.places[key]?

def contains (r : Ranking) (key : String) : Bool :=
  r.places.contains key

def importance? (r : Ranking) (key : String) : Option Importance :=
  (r.get? key).map (·.importance)

def size (r : Ranking) : Nat :=
  r.places.size

def isEmpty (r : Ranking) : Bool :=
  r.places.isEmpty

def ofJson : Reader Ranking
  | medium, .obj members => do
    return ofList (← members.mapM fun (key, j) => return (key, ← Placement.ofJson medium j))
  | _, j => .error (.wrongType j)

def toJson (r : Ranking) : Json :=
  .obj (r.toList.map fun (key, p) => (key, p.toJson))

@[ext]
theorem ext_get? {r s : Ranking} (h : ∀ key, r.get? key = s.get? key) : r = s := by
  cases r
  cases s
  congr
  exact Std.ExtTreeMap.ext_getElem? h

@[simp]
theorem get?_empty (key : String) : empty.get? key = none := by
  simp [get?, empty]

@[simp]
theorem get?_insert (r : Ranking) (key k : String) (p : Placement) :
    (r.insert key p).get? k = if key = k then some p else r.get? k := by
  simp [get?, insert, Std.ExtTreeMap.getElem?_insert]

end Ranking

end Noticeboard
