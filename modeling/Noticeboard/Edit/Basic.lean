import Noticeboard.Json.Basic

namespace Noticeboard

inductive Edit where
  | remove (position : Nat)
  | insert (position : Nat)
  /-- Take out at `source`, then put in at `target` of the shorter list. -/
  | move (source target : Nat)
  | change (position : Nat)
  deriving DecidableEq, Repr

namespace Edit

def isChange : Edit → Bool
  | change _ => true
  | _ => false

variable {α : Type}

def removeAt? (current : List α) (i : Nat) : Option (List α) :=
  if i < current.length then some (current.eraseIdx i) else none

def insertAt? (current : List α) (i : Nat) (a : α) : Option (List α) :=
  if i ≤ current.length then some (current.insertIdx i a) else none

/-- One step. What comes in new is taken from `new` at the same position. -/
def patch? (new current : List α) : Edit → Option (List α)
  | remove i => removeAt? current i
  | insert i => do insertAt? current i (← new[i]?)
  | move source target => do
    let a ← current[source]?
    insertAt? (← removeAt? current source) target a
  | change i => do
    let a ← new[i]?
    if i < current.length then some (current.set i a) else none

def toJson : Edit → Json
  | remove i => .obj [("op", .str "remove"), ("position", .nat i)]
  | insert i => .obj [("op", .str "insert"), ("position", .nat i)]
  | move source target => .obj [("op", .str "move"), ("from", .nat source), ("to", .nat target)]
  | change i => .obj [("op", .str "change"), ("position", .nat i)]

end Edit

structure EditScript where
  ops : List Edit := []
  deriving DecidableEq, Repr

namespace EditScript

variable {α : Type}

def isEmpty (s : EditScript) : Bool :=
  s.ops.isEmpty

def structuralLength (s : EditScript) : Nat :=
  s.ops.countP (!·.isChange)

/-- All steps in turn on `old`, each on what those before have left; nothing if one of them reaches
outside a list. -/
def patch? (s : EditScript) (old new : List α) : Option (List α) :=
  s.ops.foldlM (Edit.patch? new) old

def toJson (s : EditScript) : Json :=
  .arr (s.ops.map Edit.toJson)

@[simp]
theorem patch?_nil (old new : List α) : (⟨[]⟩ : EditScript).patch? old new = some old :=
  rfl

theorem patch?_append (ops more : List Edit) (old new : List α) :
    (⟨ops ++ more⟩ : EditScript).patch? old new =
      ((⟨ops⟩ : EditScript).patch? old new).bind fun current =>
        (⟨more⟩ : EditScript).patch? current new := by
  simp [patch?, List.foldlM_append]

end EditScript

end Noticeboard
