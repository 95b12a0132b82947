import Noticeboard.Config
import Noticeboard.Ranking
import Noticeboard.Record.Basic

namespace Noticeboard

/-- Whether a posted record pops up. What goes on for a while and what sums up others never
does. -/
def Record.deservesHeadsUp (r : Record) (ranking : Ranking) : Bool :=
  !(r.ongoing || r.foreground || r.isSummary) &&
    ((ranking.importance? r.key).any (.high ≤ ·) ||
      r.isAbout .carEmergency || r.isAbout .carWarning)

inductive EndReason where
  | timeout
  | removed
  | excluded
  | reset
  deriving DecidableEq, Repr

namespace EndReason

def name : EndReason → String
  | timeout => "timeout"
  | removed => "removed"
  | excluded => "excluded"
  | reset => "reset"

end EndReason

inductive HeadsUp.Change where
  | shown (key : String)
  | updated (key : String)
  | replaced (previous key : String)
  | dismissed (key : String) (reason : EndReason)
  deriving DecidableEq, Repr

namespace HeadsUp.Change

def visible : HeadsUp.Change → Option String
  | shown key | updated key | replaced _ key => some key
  | dismissed _ _ => none

def toJson : HeadsUp.Change → Json
  | shown key => .obj [("kind", .str "shown"), ("key", .str key)]
  | updated key => .obj [("kind", .str "updated"), ("key", .str key)]
  | replaced previous key =>
    .obj [("kind", .str "replaced"), ("previous", .str previous), ("key", .str key)]
  | dismissed key reason =>
    .obj [("kind", .str "dismissed"), ("key", .str key), ("reason", .str reason.name)]

end HeadsUp.Change

/-- The report of a timer, with the generation that it was set for. -/
structure Expiry where
  key : String
  generation : Nat
  deriving DecidableEq, Repr

structure Timer where
  expiry : Expiry
  due : Nat
  deriving DecidableEq, Repr

/-- The place for heads-ups. Its generation counts its changes. -/
structure HeadsUp where
  settings : HeadsUpSettings
  record : Option Record := none
  generation : Nat := 0
  timer : Option Timer := none

namespace HeadsUp

def key? (h : HeadsUp) : Option String :=
  h.record.map (·.key)

def arrival (h : HeadsUp) (key : String) : HeadsUp.Change :=
  match h.key? with
  | none => .shown key
  | some previous => if previous = key then .updated key else .replaced previous key

/-- Bring a record into the place and set its timer, which ends any timer set before. -/
def present (now : Nat) (r : Record) (h : HeadsUp) : Option HeadsUp.Change × HeadsUp :=
  if h.settings.enabled then
    let generation := h.generation + 1
    let timer : Timer := ⟨⟨r.key, generation⟩, now + h.settings.durationMs.toNat⟩
    (some (h.arrival r.key),
      { h with record := some r, generation := generation, timer := some timer })
  else (none, h)

def dismiss (key : String) (reason : EndReason) (h : HeadsUp) :
    Option HeadsUp.Change × HeadsUp :=
  if h.key? = some key then
    (some (.dismissed key reason),
      { h with record := none, generation := h.generation + 1, timer := none })
  else (none, h)

def clear (h : HeadsUp) : Option HeadsUp.Change × HeadsUp :=
  (h.key?.map (.dismissed · .reset),
    { h with record := none, generation := h.generation + 1, timer := none })

/-- Apply the report of a timer, unless the place has changed since the timer was set. -/
def expire (e : Expiry) (h : HeadsUp) : Option HeadsUp.Change × HeadsUp :=
  if h.generation = e.generation then
    match h.key? with
    | some key =>
      (some (.dismissed key .timeout),
        { h with record := none, generation := h.generation + 1, timer := none })
    | none => (none, h)
  else (none, h)

/-- Let the timer report if it is due and the place has not changed since it was set. -/
def fire (now : Nat) (h : HeadsUp) : Option Expiry × HeadsUp :=
  match h.timer with
  | some timer =>
    if timer.due ≤ now then
      (if timer.expiry.generation = h.generation then some timer.expiry else none,
        { h with timer := none })
    else (none, h)
  | none => (none, h)

end HeadsUp

end Noticeboard
