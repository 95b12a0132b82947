import Noticeboard.Record.Basic

namespace Noticeboard

structure HeadsUpSettings where
  enabled : Bool := true
  durationMs : UInt64 := 8000
  deriving DecidableEq

namespace HeadsUpSettings

def shape : Shape HeadsUpSettings :=
  HeadsUpSettings.mk <$> .withDefault "enabled" true Json.asBool
    <*> .withDefault "durationMs" 8000 Json.asUInt64

def ofJson : Reader HeadsUpSettings :=
  shape.read

def toJson (s : HeadsUpSettings) : Json :=
  .obj [("enabled", .bool s.enabled), ("durationMs", .nat s.durationMs.toNat)]

end HeadsUpSettings

structure Config where
  groupNotifications : Bool := true
  /-- Categories whose records always have a card of their own. -/
  neverShare : List Category := [.carEmergency, .system]
  /-- Whether foreground notifications of low importance are listed. -/
  showLessImportant : Bool := false
  filterMedia : Bool := true
  headsUp : HeadsUpSettings := {}
  deriving DecidableEq

namespace Config

def default : Config :=
  {}

def shape : Shape Config :=
  Config.mk <$> .withDefault "groupNotifications" default.groupNotifications Json.asBool
    <*> .withDefault "neverGroupCategories" default.neverShare (Json.asList Category.ofJson)
    <*> .withDefault "showLessImportant" default.showLessImportant Json.asBool
    <*> .withDefault "filterMedia" default.filterMedia Json.asBool
    <*> .withDefault "headsUp" default.headsUp HeadsUpSettings.ofJson

def ofJson : Reader Config :=
  shape.read

def toJson (c : Config) : Json :=
  .obj [("groupNotifications", .bool c.groupNotifications),
    ("neverGroupCategories", .arr (c.neverShare.map Category.toJson)),
    ("showLessImportant", .bool c.showLessImportant), ("filterMedia", .bool c.filterMedia),
    ("headsUp", c.headsUp.toJson)]

end Config

inductive FileContent where
  | missing (reason : String)
  | unreadable (reason : String)
  | bytes (content : ByteArray)

def FileContent.text : FileContent → Except String String
  | bytes content =>
    match String.fromUTF8? content with
    | some s => .ok s
    | none => .error "stream did not contain valid UTF-8"
  | missing reason | unreadable reason => .error reason

inductive LoadFailure where
  | homeNotFound
  | unreadable (path reason : String)
  | unparsable (path : String) (cause : DocumentError)

namespace LoadFailure

def summary : LoadFailure → String
  | homeNotFound => "Home directory not found"
  | unreadable path _ => "Failed to read config at " ++ path
  | unparsable path _ => "Failed to parse config at " ++ path

def cause? : LoadFailure → Option String
  | homeNotFound => none
  | unreadable _ reason => some reason
  | unparsable _ cause => some cause.message

def message (e : LoadFailure) : String :=
  match e.cause? with
  | none => e.summary
  | some cause => e.summary ++ ": " ++ cause

end LoadFailure

namespace Config

def load (path : String) (file : FileContent) : Except LoadFailure Config :=
  match file.text with
  | .error reason => .error (.unreadable path reason)
  | .ok s => (Reader.ofText ofJson s).mapError (.unparsable path)

def homePath (home : String) : String :=
  home ++ "/.carnotif/config.json"

/-- The configuration of a user, who need not have a file. -/
def loadHome (path : String) (file : FileContent) : Except LoadFailure Config :=
  match file with
  | .missing _ => .ok default
  | file => load path file

end Config

end Noticeboard
