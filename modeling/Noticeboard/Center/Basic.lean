import Noticeboard.Center.Event
import Noticeboard.Session.Basic

namespace Noticeboard

structure Update where
  cards : List Card
  edits : EditScript
  headsUp : Option HeadsUp.Change := none
  mute : Option ToggleResult := none
  unseenCount : Nat

namespace Update

def toJsonWith (card : Card → Json) (u : Update) : Json :=
  .obj ([("groups", .arr (u.cards.map card)), ("edits", u.edits.toJson)] ++
    Json.present "headsUp" HeadsUp.Change.toJson u.headsUp ++
    Json.present "mute" (fun t => .str t.name) u.mute ++
    [("unseenCount", .nat u.unseenCount)])

def toJson (u : Update) : Json :=
  u.toJsonWith Card.toJson

end Update

structure Center where
  session : Session
  headsUp : HeadsUp

/-- What applying an event leads to. A list that cannot be made leaves what was applied before. -/
structure Handled where
  center : Center
  result : Except PackageConflict Update
  log : List LogEntry := []

namespace Center

def new (session : Session) : Center where
  session := session
  headsUp := { settings := session.config.headsUp }

/-- Take the records of these keys out of the place for heads-ups. The last change counts. -/
def dismissAll (keys : List String) (reason : EndReason) (h : HeadsUp) :
    Option HeadsUp.Change × HeadsUp :=
  keys.foldl (fun (change, h) key =>
    let (next, h) := h.dismiss key reason
    (next.or change, h)) (none, h)

structure Applied where
  session : Session
  headsUp : HeadsUp
  change : Option HeadsUp.Change := none
  mute : Option ToggleResult := none
  log : List LogEntry := []

def apply (now : Nat) (c : Center) : Event → Applied
  | .posted r ranking =>
    let (outcome, session) := c.session.post r ranking
    match session.store.get? outcome.key with
    | some r =>
      if outcome.headsUp then
        let (change, headsUp) := c.headsUp.present now r
        { session, headsUp, change }
      else { session, headsUp := c.headsUp }
    | none => { session, headsUp := c.headsUp }
  | .removed key =>
    let (_, session) := c.session.remove key
    let (change, headsUp) := c.headsUp.dismiss key .removed
    { session, headsUp, change }
  | .rankingUpdated ranking =>
    let (dropped, session) := c.session.rank ranking
    let (change, headsUp) := dismissAll (dropped.map (·.key)) .excluded c.headsUp
    { session, headsUp, change }
  | .markSeen keys => { session := c.session.markSeen keys, headsUp := c.headsUp }
  | .toggleMute key =>
    let (toggle, session) := c.session.toggleMute key
    { session, headsUp := c.headsUp, mute := some toggle, log := toggle.log key }
  | .reset =>
    let (change, headsUp) := c.headsUp.clear
    { session := c.session.reset, headsUp, change }

def handle (now : Nat) (c : Center) (e : Event) : Handled :=
  let a := c.apply now e
  match a.session.refresh with
  | .error err => ⟨⟨a.session, a.headsUp⟩, .error err, a.log⟩
  | .ok (list, session) =>
    ⟨⟨session, a.headsUp⟩,
      .ok ⟨list.cards, list.edits, a.change, a.mute, session.unseen.size⟩, a.log⟩

def expire (c : Center) (e : Expiry) : Option Update × Center :=
  let (change, headsUp) := c.headsUp.expire e
  let update := change.map fun change =>
    { cards := c.session.cards, edits := {}, headsUp := some change,
      unseenCount := c.session.unseen.size }
  (update, { c with headsUp := headsUp })

end Center

end Noticeboard
