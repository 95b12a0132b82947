import Noticeboard.Log
import Noticeboard.Record.Codec

namespace Noticeboard

structure Card where
  identity : String
  package : Option String := none
  header : Option Record := none
  children : List Record := []
  deriving DecidableEq

namespace Card

def empty (identity : String) : Card where
  identity := identity

def single (identity : String) (r : Record) : Card :=
  if r.isSummary then ⟨identity, some r.package, some r, []⟩
  else ⟨identity, some r.package, none, [r]⟩

/-- Most recent first; records of one time keep their order. -/
def newestFirst (records : List Record) : List Record :=
  records.mergeSort fun a b => decide (b.postTime ≤ a.postTime)

/-- A summary takes the place of the header, any other record becomes a child. -/
def place (c : Card) (r : Record) : Card :=
  if r.isSummary then { c with header := some r }
  else { c with children := newestFirst (c.children ++ [r]) }

/-- Add a record. The first one settles the package. -/
def add (c : Card) (r : Record) : Except PackageConflict Card :=
  match c.package with
  | none => .ok (place { c with package := some r.package } r)
  | some package =>
    if package = r.package then .ok (c.place r)
    else .error ⟨c.identity, package, r.package⟩

def childCount (c : Card) : Nat :=
  c.children.length

def isBundle (c : Card) : Bool :=
  c.header.isSome && 1 < c.childCount

/-- The record whose rank places the card: the header, else the most recent child. -/
def leader (c : Card) : Option Record :=
  c.header.or c.children.head?

def front (c : Card) : Option Record :=
  if c.isBundle then c.header else c.children.head?.or c.header

def template (c : Card) : Template :=
  if c.isBundle then .group
  else match c.front with
    | some r => r.template
    | none => .basic

def records (c : Card) : List Record :=
  c.header.toList ++ c.children

def contains (c : Card) (key : String) : Bool :=
  c.records.any (·.key == key)

/-- Whether two cards show the same notifications, whatever the records say by now. -/
def same (a b : Card) : Bool :=
  a.package == b.package && a.childCount == b.childCount &&
    (match a.header, b.header with
      | none, none => true
      | some x, some y => x.id.coincides y.id
      | _, _ => false) &&
    (a.children.zip b.children).all fun (x, y) => x.id.coincides y.id

def sameOption : Option Card → Option Card → Bool
  | none, none => true
  | some a, some b => a.same b
  | _, _ => false

def toJson (c : Card) : Json :=
  .obj [("groupKey", .str c.identity), ("package", .ofOption .str c.package),
    ("header", .ofOption Record.toJson c.header), ("children", .arr (c.children.map Record.toJson))]

end Card

def Record.ownIdentity (r : Record) : String :=
  "u:" ++ "|".intercalate
    [toString r.id.user, r.package, toString r.id.number, r.id.tag.getD "", r.key]

structure SharingRule where
  neverShare : List Category := []
  deriving DecidableEq

namespace SharingRule

def allows (p : SharingRule) (r : Record) : Bool :=
  match r.category with
  | some c => !p.neverShare.contains c
  | none => true

/-- Records share a card when they have the same identity. -/
def identity (p : SharingRule) (r : Record) : String :=
  match r.groupKey with
  | some group => if p.allows r then "g:" ++ group ++ "|" ++ r.package else r.ownIdentity
  | none => r.ownIdentity

end SharingRule

/-- Add a record to the card of an identity, or begin that card at the end. -/
def addTo (identity : String) (r : Record) : List Card → Except PackageConflict (List Card)
  | [] => do
    let card ← (Card.empty identity).add r
    return [card]
  | card :: cards =>
    if card.identity = identity then do
      let card ← card.add r
      return card :: cards
    else do
      let cards ← addTo identity r cards
      return card :: cards

def group (p : SharingRule) (records : List Record) : Except PackageConflict (List Card) :=
  records.foldlM (fun cards r => addTo (p.identity r) r cards) []

def flatten (cards : List Card) : List Record :=
  cards.flatMap Card.records

end Noticeboard
