import Noticeboard.Center.Basic

namespace Noticeboard

structure EventLoop where
  center : Center
  /-- The time in milliseconds since the beginning. -/
  now : Nat := 0
  events : List Event := []
  expiries : List Expiry := []
  closed : Bool := false
  listening : Bool := true
  running : Bool := true

inductive Move where
  | takeEvent
  | takeExpiry
  | fire
  | advance (ms : Nat)
  | close
  | stopListening
  deriving DecidableEq, Repr

structure Output where
  updates : List Update := []
  log : List LogEntry := []

namespace Output

def append (a b : Output) : Output :=
  ⟨a.updates ++ b.updates, a.log ++ b.log⟩

end Output

namespace EventLoop

def new (center : Center) : EventLoop where
  center := center

def send? (l : EventLoop) (e : Event) : Option EventLoop :=
  if l.running && !l.closed then some { l with events := l.events ++ [e] } else none

/-- Publish an update. The loop ends if nobody listens. -/
def publish (l : EventLoop) (update : Update) (log : List LogEntry) : EventLoop × Output :=
  if l.listening then (l, ⟨[update], log⟩) else ({ l with running := false }, ⟨[], log⟩)

def takeEvent (l : EventLoop) : EventLoop × Output :=
  match l.events with
  | [] => ({ l with running := !l.closed }, {})
  | e :: events =>
    let h := l.center.handle l.now e
    let l := { l with center := h.center, events := events }
    match h.result with
    | .ok update => l.publish update h.log
    | .error err => (l, { log := h.log ++ [.refreshFailed err] })

def takeExpiry (l : EventLoop) : EventLoop × Output :=
  match l.expiries with
  | [] => (l, {})
  | e :: expiries =>
    let (update, center) := l.center.expire e
    let l := { l with center := center, expiries := expiries }
    match update with
    | some update => l.publish update []
    | none => (l, {})

def fire (l : EventLoop) : EventLoop :=
  let (expiry, headsUp) := l.center.headsUp.fire l.now
  { l with
    center := { l.center with headsUp := headsUp }
    expiries := l.expiries ++ expiry.toList }

/-- A loop that has ended takes nothing more. -/
def step (l : EventLoop) : Move → EventLoop × Output
  | .takeEvent => if l.running then l.takeEvent else (l, {})
  | .takeExpiry => if l.running then l.takeExpiry else (l, {})
  | .fire => (l.fire, {})
  | .advance ms => ({ l with now := l.now + ms }, {})
  | .close => ({ l with closed := true }, {})
  | .stopListening => ({ l with listening := false }, {})

def run (l : EventLoop) (moves : List Move) : EventLoop × Output :=
  moves.foldl (fun (l, out) move =>
    let (l, more) := l.step move
    (l, out.append more)) (l, {})

end EventLoop

end Noticeboard
