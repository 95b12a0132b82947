namespace Noticeboard

/-- A card holds records of one package only. -/
structure PackageConflict where
  group : String
  expected : String
  found : String
  deriving DecidableEq, Repr

def PackageConflict.message (e : PackageConflict) : String :=
  "Group " ++ e.group ++ " belongs to package " ++ e.expected ++ ", refusing record from " ++
    e.found

inductive SendFailure where
  | canceled
  | failed (reason : String)
  deriving DecidableEq, Repr

def SendFailure.message : SendFailure → String
  | canceled => "Intent was canceled by its owner"
  | failed reason => "Failed to send intent: " ++ reason

inductive LogEntry where
  | muteNotStored (key : String)
  | muteNotRegistered (key : String)
  | actionOutOfRange (index : Nat) (key : String) (actions : Nat)
  | dispatchFailed (key : String) (e : SendFailure)
  | refreshFailed (e : PackageConflict)

namespace LogEntry

def text : LogEntry → String
  | muteNotStored key => "Mute toggled for notification " ++ key ++ " not in store"
  | muteNotRegistered key => "Mute toggled for unregistered notification " ++ key ++ ", ignoring"
  | actionOutOfRange index key actions =>
    "Action " ++ toString index ++ " out of range for " ++ key ++ " (" ++ toString actions ++
      " actions)"
  | dispatchFailed key e => "Dispatch for " ++ key ++ " failed: " ++ e.message
  | refreshFailed e => "Notification pipeline failed: " ++ e.message

def level : LogEntry → String
  | refreshFailed _ => "ERROR"
  | _ => "WARN"

def line (e : LogEntry) : String :=
  e.level ++ " " ++ e.text

end LogEntry

end Noticeboard
