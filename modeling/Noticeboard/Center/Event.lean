import Noticeboard.Ranking
import Noticeboard.Record.Codec

namespace Noticeboard

inductive Event where
  | posted (record : Record) (ranking : Option Ranking)
  | removed (key : String)
  | rankingUpdated (ranking : Ranking)
  | markSeen (keys : List String)
  | toggleMute (key : String)
  | reset

namespace Event

def shapes : List (String × Shape Event) :=
  [("posted", posted <$> .required "record" Record.ofJson <*> .optional "ranking" Ranking.ofJson),
    ("removed", removed <$> .required "key" Json.asString),
    ("rankingUpdated", rankingUpdated <$> .required "ranking" Ranking.ofJson),
    ("markSeen", markSeen <$> .required "keys" (Json.asList Json.asString)),
    ("toggleMute", toggleMute <$> .required "key" Json.asString),
    ("reset", pure reset)]

def shapeOfType : Reader (Shape Event) := fun medium j => do
  Json.ofName shapes (← Json.asString medium j)

def typeShape : Shape (Shape Event) :=
  .required "type" shapeOfType

/-- An event is an object with a type, or an array that begins with it. It is put aside as a whole
until its type is known, so that nothing in it may be broken. -/
def ofJson : Reader Event := fun medium j =>
  if j.isSound then
    match j with
    | .obj members => do
      let shape ← typeShape.ofMembers medium members
      shape.ofMembers .buffer members
    | .arr [] => .error (.missingField "type")
    | .arr (j :: items) => do
      let shape ← shapeOfType medium j
      shape.ofItems .buffer items
    | j => .error (.wrongType j)
  else .error .malformed

def ofType (type : String) (members : List (String × Json)) : Json :=
  .obj (("type", .str type) :: members)

def toJson : Event → Json
  | posted record ranking =>
    ofType "posted" [("record", record.toJson), ("ranking", .ofOption Ranking.toJson ranking)]
  | removed key => ofType "removed" [("key", .str key)]
  | rankingUpdated ranking => ofType "rankingUpdated" [("ranking", ranking.toJson)]
  | markSeen keys => ofType "markSeen" [("keys", .strings keys)]
  | toggleMute key => ofType "toggleMute" [("key", .str key)]
  | reset => ofType "reset" []

end Event

end Noticeboard
