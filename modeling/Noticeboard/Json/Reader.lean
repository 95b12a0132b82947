import Noticeboard.Json.Parser

namespace Noticeboard

inductive ReadError where
  | missingField (name : String)
  | duplicateField (name : String)
  | unknownVariant (name : String) (known : List String)
  | wrongType (found : Json)
  | outOfRange (n : Int)
  /-- A name was asked for, and an object with other than one member found. -/
  | notOneMember
  | malformed

/-- Where a value stands while it is read. Only names given by objects depend on it. -/
inductive Medium where
  | text
  | tree
  /-- Among values that were put aside until their type was known. -/
  | buffer
  deriving DecidableEq, Repr

abbrev Reader (α : Type) := Medium → Json → Except ReadError α

def Json.kind : Json → String
  | null => "null"
  | bool _ => "boolean"
  | int _ => "integer"
  | decimal _ => "floating point"
  | str _ => "string"
  | arr _ => "sequence"
  | obj _ => "map"
  | broken _ => "broken value"

namespace ReadError

def quote (name : String) : String :=
  "`" ++ name ++ "`"

/-- What is wrong, without its place in the text. -/
def message : ReadError → String
  | missingField name => "missing field " ++ quote name
  | duplicateField name => "duplicate field " ++ quote name
  | unknownVariant name known =>
    "unknown variant " ++ quote name ++ ", expected one of " ++ ", ".intercalate (known.map quote)
  | wrongType found => "invalid type: " ++ found.kind
  | outOfRange n => "invalid value: integer " ++ quote (toString n)
  | notOneMember => "invalid value: map"
  | malformed => "invalid value"

end ReadError

namespace Json

def asBool : Reader Bool
  | _, bool b => .ok b
  | _, j => .error (.wrongType j)

def asString : Reader String
  | _, str s => .ok s
  | _, j => .error (.wrongType j)

/-- An integer from `low` up to, but not including, `high`. -/
def asInt (low high : Int) : Reader Int
  | _, int n => if low ≤ n ∧ n < high then .ok n else .error (.outOfRange n)
  | _, j => .error (.wrongType j)

def asInt32 : Reader Int32 := fun medium j =>
  (asInt Int32.minValue.toInt (Int32.maxValue.toInt + 1) medium j).map Int32.ofInt

def asUInt32 : Reader UInt32 := fun medium j =>
  (asInt 0 UInt32.size medium j).map fun n => UInt32.ofNat n.toNat

def asUInt64 : Reader UInt64 := fun medium j =>
  (asInt 0 UInt64.size medium j).map fun n => UInt64.ofNat n.toNat

def asList (item : Reader α) : Reader (List α)
  | medium, arr items => items.mapM (item medium)
  | _, j => .error (.wrongType j)

def asOption (read : Reader α) : Reader (Option α)
  | _, null => .ok none
  | medium, j => (read medium j).map some

def ofName (variants : List (String × α)) (name : String) : Except ReadError α :=
  match variants.lookup name with
  | some a => .ok a
  | none => .error (.unknownVariant name (variants.map (·.1)))

/-- What stands for nothing below a name: null, and an empty object that was put aside. -/
def asNothing : Reader Unit
  | _, null => .ok ()
  | .buffer, obj [] => .ok ()
  | _, j => .error (.wrongType j)

/-- A name that is read from a text: alone, or as the only member of an object. What is there is
read in turn, so that a second member is the last thing found. -/
def variantInText (variants : List (String × α)) : Json → Except ReadError α
  | str name => ofName variants name
  | obj ((name, value) :: others) => do
    let a ← ofName variants name
    asNothing .text value
    if others.isEmpty then .ok a else .error .malformed
  | _ => .error .malformed

/-- A name that is read from a value: the members of an object are counted first. -/
def variantIn (medium : Medium) (variants : List (String × α)) : Json → Except ReadError α
  | str name => ofName variants name
  | obj [(name, value)] => do
    let a ← ofName variants name
    asNothing medium value
    return a
  | obj _ => .error .notOneMember
  | j => .error (.wrongType j)

def asVariant (variants : List (String × α)) : Reader α
  | .text, j => variantInText variants j
  | medium, j => variantIn medium variants j

end Json

structure Field where
  name : String
  check : Reader Unit

structure Found where
  medium : Medium
  members : List (String × Json)
  absent : String → ReadError

/-- How a structure is read: its members in the order of declaration, and the value made of them.
Members that it does not know are ignored, even broken ones, a known member may stand once, and what
is missing is found after all that is there has been read. -/
structure Shape (α : Type) where
  fields : List Field
  build : Found → Except ReadError α

namespace Shape

variable {α β : Type}

instance : Applicative Shape where
  pure a := ⟨[], fun _ => .ok a⟩
  seq f x := ⟨f.fields ++ (x ()).fields, fun found => do
    let g ← f.build found
    let a ← (x ()).build found
    return g a⟩

@[simp]
theorem fields_seq (f : Shape (α → β)) (x : Shape α) :
    (f <*> x).fields = f.fields ++ x.fields :=
  rfl

@[simp]
theorem fields_map (f : α → β) (x : Shape α) : (f <$> x).fields = x.fields :=
  rfl

@[simp]
theorem build_seq (f : Shape (α → β)) (x : Shape α) (found : Found) :
    (f <*> x).build found = f.build found <*> x.build found := by
  change (do let g ← f.build found; let a ← x.build found; return g a) = _
  cases f.build found <;> cases x.build found <;> rfl

@[simp]
theorem build_map (f : α → β) (x : Shape α) (found : Found) :
    (f <$> x).build found = f <$> x.build found := by
  change (do let a ← x.build found; return f a) = _
  cases x.build found <;> rfl

def field (name : String) (read : Reader α) : Field :=
  ⟨name, fun medium j => (read medium j).map fun _ => ()⟩

def required (name : String) (read : Reader α) : Shape α where
  fields := [field name read]
  build found :=
    match found.members.lookup name with
    | some j => read found.medium j
    | none => .error (found.absent name)

def withDefault (name : String) (default : α) (read : Reader α) : Shape α where
  fields := [field name read]
  build found :=
    match found.members.lookup name with
    | some j => read found.medium j
    | none => .ok default

/-- A member that may be left out or null. -/
def optional (name : String) (read : Reader α) : Shape (Option α) :=
  withDefault name none (Json.asOption read)

def knows (shape : Shape α) (name : String) : Bool :=
  shape.fields.any (·.name == name)

variable (medium : Medium)

/-- Check members in order. `met` holds the names of the known members before them. -/
def scan (fields : List Field) : List String → List (String × Json) → Except ReadError Unit
  | _, [] => .ok ()
  | met, (name, value) :: members =>
    match fields.find? (·.name == name) with
    | none => scan fields met members
    | some field =>
      if name ∈ met then .error (.duplicateField name)
      else do
        field.check medium value
        scan fields (name :: met) members

def ofMembers (shape : Shape α) (members : List (String × Json)) : Except ReadError α := do
  scan medium shape.fields [] members
  shape.build ⟨medium, members, .missingField⟩

/-- A structure given by the values of its members in the order of declaration. -/
def ofItems (shape : Shape α) (items : List Json) : Except ReadError α := do
  let members := (shape.fields.map (·.name)).zip items
  scan medium shape.fields [] members
  let a ← shape.build ⟨medium, members, fun _ => .malformed⟩
  if items.length ≤ shape.fields.length then .ok a else .error .malformed

def read (shape : Shape α) : Reader α
  | medium, .obj members => shape.ofMembers medium members
  | medium, .arr items => shape.ofItems medium items
  | _, j => .error (.wrongType j)

end Shape

inductive DocumentError where
  | notJson
  | unreadable (e : ReadError)

def DocumentError.message : DocumentError → String
  | notJson => "not JSON"
  | unreadable e => e.message

/-- The value of a text. What is broken in it does not count where it is ignored; otherwise the text
is no JSON, whatever else is wrong with it. -/
def Reader.ofText (read : Reader α) (s : String) : Except DocumentError α :=
  match Json.parse? s with
  | none => .error .notJson
  | some j => (read .text j).mapError fun e => if j.isSound then .unreadable e else .notJson

end Noticeboard
