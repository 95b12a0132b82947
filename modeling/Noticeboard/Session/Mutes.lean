import Noticeboard.Car
import Std.Data.ExtTreeMap

namespace Noticeboard

inductive ToggleResult where
  | muted
  | unmuted
  | notMessage
  | notRegistered
  | notStored
  deriving DecidableEq, Repr

namespace ToggleResult

def name : ToggleResult → String
  | muted => "muted"
  | unmuted => "unmuted"
  | notMessage => "notMessage"
  | notRegistered | notStored => "unknown"

def log (key : String) : ToggleResult → List LogEntry
  | notRegistered => [.muteNotRegistered key]
  | notStored => [.muteNotStored key]
  | _ => []

end ToggleResult

structure Mutes where
  flags : Std.ExtTreeMap String Bool := ∅

namespace Mutes

def get? (m : Mutes) (key : String) : Option Bool :=
  m.flags[key]?

def size (m : Mutes) : Nat :=
  m.flags.size

def isEmpty (m : Mutes) : Bool :=
  m.flags.isEmpty

variable (car : Car)

def register (m : Mutes) (r : Record) : Mutes :=
  if car.readsOut r then ⟨m.flags.insertIfNew r.key false⟩ else m

/-- Whether a record is muted. To ask registers it. -/
def isMuted (m : Mutes) (r : Record) : Bool × Mutes :=
  let m := m.register car r
  ((m.get? r.key).getD false, m)

def toggle (m : Mutes) (r : Record) : ToggleResult × Mutes :=
  if car.readsOut r then
    match m.get? r.key with
    | some muted => (if muted then .unmuted else .muted, ⟨m.flags.insert r.key !muted⟩)
    | none => (.notRegistered, m)
  else (.notMessage, m)

@[simp]
theorem get?_register (m : Mutes) (r : Record) (key : String) :
    (m.register car r).get? key =
      if car.readsOut r ∧ r.key = key then some ((m.get? key).getD false) else m.get? key := by
  by_cases hr : car.readsOut r
  · simp only [register, hr, if_true, get?, Std.ExtTreeMap.getElem?_insertIfNew, true_and]
    by_cases hk : r.key = key
    · subst hk
      by_cases hm : r.key ∈ m.flags
      · simp [hm]
      · simp [hm]
    · simp [hk]
  · simp [register, hr]

end Mutes

end Noticeboard
