import Noticeboard.Instant.Basic
import Noticeboard.Json.Reader

namespace Noticeboard

inductive Category where
  | carEmergency
  | carWarning
  | carInformation
  | message
  | call
  | navigation
  | transport
  | system
  | status
  | progress
  | other (name : String)
  deriving DecidableEq, Repr

namespace Category

/-- The categories with a meaning of their own. -/
def known : List Category :=
  [carEmergency, carWarning, carInformation, message, call, navigation, transport, system, status,
    progress]

def name : Category → String
  | carEmergency => "car_emergency"
  | carWarning => "car_warning"
  | carInformation => "car_information"
  | message => "msg"
  | call => "call"
  | navigation => "navigation"
  | transport => "transport"
  | system => "sys"
  | status => "status"
  | progress => "progress"
  | other name => name

def ofName (name : String) : Category :=
  (known.find? (·.name == name)).getD (other name)

def ofJson : Reader Category := fun medium j =>
  (Json.asString medium j).map ofName

def toJson (c : Category) : Json :=
  .str c.name

theorem name_ofName (s : String) : (ofName s).name = s := by
  unfold ofName
  cases h : known.find? (·.name == s) with
  | none => rfl
  | some c => simpa using List.find?_some h

end Category

/-- What names a record. The key is its own; package, tag, number and user name the notification
that it shows, however often that is posted. -/
structure RecordId where
  key : String
  package : String
  tag : Option String := none
  number : Int32
  user : Int32 := 0
  deriving DecidableEq

namespace RecordId

/-- The name of a notification that brings no key: the parts make one. -/
def ofParts (package : String) (tag : Option String) (number user : Int32) : RecordId where
  key := "|".intercalate [toString user, package, toString number, tag.getD "null"]
  package := package
  tag := tag
  number := number
  user := user

/-- Whether both name the same notification, whatever their keys. -/
def coincides (a b : RecordId) : Bool :=
  a.number == b.number && a.user == b.user && a.package == b.package && a.tag == b.tag

end RecordId

inductive Style where
  | default
  | messaging
  | inbox
  | media
  | bigText
  deriving DecidableEq, Repr

/-- What an action does, whatever its label says. -/
inductive Purpose where
  | none
  | reply
  | markAsRead
  | markAsUnread
  | delete
  | archive
  | mute
  | unmute
  | call
  deriving DecidableEq, Repr

structure Action where
  title : String
  purpose : Purpose := .none
  hasRemoteInput : Bool := false
  deriving DecidableEq

structure Progress where
  max : UInt32
  current : UInt32
  indeterminate : Bool := false
  deriving DecidableEq

inductive Template where
  | basic
  | message
  | progress
  | group
  | groupSummary
  | media
  | inbox
  | emergency
  deriving DecidableEq, Repr

structure Record where
  id : RecordId
  groupKey : Option String := none
  isSummary : Bool := false
  title : String := ""
  text : String := ""
  category : Option Category := none
  style : Style := .default
  progress : Option Progress := none
  actions : List Action := []
  postTime : Instant
  ongoing : Bool := false
  foreground : Bool := false
  deriving DecidableEq

namespace Record

def key (r : Record) : String :=
  r.id.key

def package (r : Record) : String :=
  r.id.package

def isAbout (r : Record) (c : Category) : Bool :=
  r.category == some c

def isMedia (r : Record) : Bool :=
  r.style == .media || r.isAbout .transport

def isMessaging (r : Record) : Bool :=
  r.style == .messaging || r.isAbout .message

def template (r : Record) : Template :=
  if r.isSummary then .groupSummary
  else if r.isAbout .carEmergency then .emergency
  else if r.isMessaging then .message
  else if r.isMedia then .media
  else if r.style == .inbox then .inbox
  else if r.progress.isSome then .progress
  else .basic

end Record

end Noticeboard
