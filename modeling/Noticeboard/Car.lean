import Noticeboard.Log
import Noticeboard.Record.Basic

namespace Noticeboard

structure Car where
  /-- Whether the car can read a record out and send a reply. -/
  readsOut : Record → Bool
  voices : Purpose → Bool

namespace Car

/-- A car whose voice assistant carries out some kinds of actions. It reads out a conversation that
it can reply to. -/
def ofVoice (voice : List Purpose) : Car where
  voices p := voice.contains p
  readsOut r :=
    r.isMessaging && r.actions.any fun a => a.purpose == .reply && voice.contains a.purpose

def default : Car :=
  ofVoice [.reply, .markAsRead]

end Car

structure Request where
  id : RecordId
  action : Option Nat
  deriving DecidableEq

def Record.request (r : Record) (action : Option Nat) : Except LogEntry Request :=
  match action with
  | some i =>
    if i < r.actions.length then .ok ⟨r.id, some i⟩
    else .error (.actionOutOfRange i r.key r.actions.length)
  | none => .ok ⟨r.id, none⟩

variable {m : Type → Type} [Monad m]

/-- Ask the host; the answer is what to log if nothing was sent. -/
def dispatch (send : Request → m (Except SendFailure Unit)) (r : Record)
    (action : Option Nat) : m (Except LogEntry Unit) := do
  match r.request action with
  | .error e => return .error e
  | .ok request => return (← send request).mapError (.dispatchFailed r.key)

end Noticeboard
