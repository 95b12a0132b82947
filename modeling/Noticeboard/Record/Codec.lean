import Noticeboard.Record.Basic
import Noticeboard.Instant.Text

namespace Noticeboard

namespace Instant

def ofJson : Reader Instant := fun medium j => do
  match parse? (← Json.asString medium j) with
  | some i => .ok i
  | none => .error .malformed

def toJson (i : Instant) : Json :=
  .str i.text

end Instant

namespace Style

def all : List Style :=
  [default, messaging, inbox, media, bigText]

def name : Style → String
  | default => "default"
  | messaging => "messaging"
  | inbox => "inbox"
  | media => "media"
  | bigText => "bigText"

def ofJson : Reader Style :=
  Json.asVariant (all.map fun s => (s.name, s))

def toJson (s : Style) : Json :=
  .str s.name

end Style

namespace Purpose

def all : List Purpose :=
  [none, reply, markAsRead, markAsUnread, delete, archive, mute, unmute, call]

def name : Purpose → String
  | none => "none"
  | reply => "reply"
  | markAsRead => "markAsRead"
  | markAsUnread => "markAsUnread"
  | delete => "delete"
  | archive => "archive"
  | mute => "mute"
  | unmute => "unmute"
  | call => "call"

def ofJson : Reader Purpose :=
  Json.asVariant (all.map fun a => (a.name, a))

def toJson (a : Purpose) : Json :=
  .str a.name

end Purpose

namespace Template

def all : List Template :=
  [basic, message, progress, group, groupSummary, media, inbox, emergency]

def name : Template → String
  | basic => "basic"
  | message => "message"
  | progress => "progress"
  | group => "group"
  | groupSummary => "groupSummary"
  | media => "media"
  | inbox => "inbox"
  | emergency => "emergency"

def ofJson : Reader Template :=
  Json.asVariant (all.map fun h => (h.name, h))

def toJson (h : Template) : Json :=
  .str h.name

end Template

namespace Action

def shape : Shape Action :=
  Action.mk <$> .required "title" Json.asString
    <*> .withDefault "semanticAction" .none Purpose.ofJson
    <*> .withDefault "hasRemoteInput" false Json.asBool

def ofJson : Reader Action :=
  shape.read

def toJson (a : Action) : Json :=
  .obj [("title", .str a.title), ("semanticAction", a.purpose.toJson),
    ("hasRemoteInput", .bool a.hasRemoteInput)]

end Action

namespace Progress

def shape : Shape Progress :=
  Progress.mk <$> .required "max" Json.asUInt32
    <*> .required "current" Json.asUInt32
    <*> .withDefault "indeterminate" false Json.asBool

def ofJson : Reader Progress :=
  shape.read

def toJson (p : Progress) : Json :=
  .obj [("max", .nat p.max.toNat), ("current", .nat p.current.toNat),
    ("indeterminate", .bool p.indeterminate)]

end Progress

namespace RecordId

def shape : Shape RecordId :=
  RecordId.mk <$> .required "key" Json.asString
    <*> .required "package" Json.asString
    <*> .optional "tag" Json.asString
    <*> .required "id" Json.asInt32
    <*> .withDefault "user" 0 Json.asInt32

def ofJson : Reader RecordId :=
  shape.read

def members (id : RecordId) : List (String × Json) :=
  [("key", .str id.key), ("package", .str id.package), ("tag", .ofOption .str id.tag),
    ("id", .int id.number.toInt), ("user", .int id.user.toInt)]

def toJson (id : RecordId) : Json :=
  .obj id.members

end RecordId

namespace Record

/-- The members of a record that are not its name's. Those of its name stand among them and are read
last: until then they are put aside, so that none of them may be broken. -/
def shape : Shape (RecordId → Record) :=
  (fun groupKey isSummary title text category style progress actions postTime ongoing foreground
      id =>
    { id, groupKey, isSummary, title, text, category, style, progress, actions, postTime, ongoing,
      foreground }) <$>
    .optional "groupKey" Json.asString
    <*> .withDefault "isGroupSummary" false Json.asBool
    <*> .withDefault "title" "" Json.asString
    <*> .withDefault "text" "" Json.asString
    <*> .optional "category" Category.ofJson
    <*> .withDefault "style" .default Style.ofJson
    <*> .optional "progress" Progress.ofJson
    <*> .withDefault "actions" [] (Json.asList Action.ofJson)
    <*> .required "postTime" Instant.ofJson
    <*> .withDefault "ongoing" false Json.asBool
    <*> .withDefault "foreground" false Json.asBool

def ofJson : Reader Record
  | medium, .obj members => do
    if members.all fun (name, j) => shape.knows name || j.isSound then
      let ofId ← shape.ofMembers medium members
      let id ← RecordId.shape.ofMembers .buffer members
      return ofId id
    else .error .malformed
  | _, j => .error (.wrongType j)

def members (r : Record) : List (String × Json) :=
  r.id.members ++ Json.present "groupKey" .str r.groupKey ++
    [("isGroupSummary", .bool r.isSummary), ("title", .str r.title), ("text", .str r.text)] ++
    Json.present "category" Category.toJson r.category ++ [("style", r.style.toJson)] ++
    Json.present "progress" Progress.toJson r.progress ++
    [("actions", .arr (r.actions.map Action.toJson)), ("postTime", r.postTime.toJson),
      ("ongoing", .bool r.ongoing), ("foreground", .bool r.foreground)]

def toJson (r : Record) : Json :=
  .obj r.members

end Record

end Noticeboard
