import Noticeboard.Card.Basic
import Noticeboard.Config
import Noticeboard.Edit.Difference
import Noticeboard.Ranking

namespace Noticeboard

def Card.rank? (c : Card) (ranking : Ranking) : Option Int32 :=
  c.leader.bind fun r => (ranking.get? r.key).map (·.rank)

/-- Cards with a rank come first, the lower rank before the higher. -/
def compareCards (ranking : Ranking) (a b : Card) : Ordering :=
  match a.rank? ranking, b.rank? ranking with
  | some x, some y => compare x y
  | some _, none => .lt
  | none, some _ => .gt
  | none, none => .eq

def rankCards (ranking : Ranking) (cards : List Card) : List Card :=
  cards.mergeSort fun a b => (compareCards ranking a b).isLE

structure Priority where
  emergency : Bool
  highImportance : Bool
  warning : Bool
  information : Bool
  importance : Option Importance
  deriving DecidableEq

namespace Priority

/-- A record that is not ranked is below any that is. -/
def level : Option Importance → Nat
  | none => 0
  | some i => i.level + 1

def compare (a b : Priority) : Ordering :=
  (Ord.compare a.emergency b.emergency)
    |>.then (Ord.compare a.highImportance b.highImportance)
    |>.then (Ord.compare a.warning b.warning)
    |>.then (Ord.compare a.information b.information)
    |>.then (Ord.compare (level a.importance) (level b.importance))

end Priority

def Record.priority (r : Record) (ranking : Ranking) : Priority where
  emergency := r.isAbout .carEmergency
  highImportance := ranking.importance? r.key == some .high
  warning := r.isAbout .carWarning
  information := r.isAbout .carInformation
  importance := ranking.importance? r.key

def compareRecords (ranking : Ranking) (a b : Record) : Ordering :=
  (b.priority ranking).compare (a.priority ranking)

def rankRecords (ranking : Ranking) (records : List Record) : List Record :=
  records.mergeSort fun a b => (compareRecords ranking a b).isLE

/-- A foreground notification below the default importance. -/
def Record.isMinor (r : Record) (ranking : Ranking) : Bool :=
  r.foreground && (ranking.importance? r.key).any (· < .default)

def Config.lists (config : Config) (ranking : Ranking) (r : Record) : Bool :=
  !(config.filterMedia && r.isMedia) &&
    (config.showLessImportant || !r.isMinor ranking)

def Config.listed (config : Config) (ranking : Ranking) (records : List Record) : List Record :=
  records.filter (config.lists ranking)

def Config.sharing (config : Config) : SharingRule :=
  ⟨config.neverShare⟩

/-- Cards that show the same notifications are one item. They are redrawn every time, since their
records may say something new. -/
def Card.comparison : Comparison Card where
  same := Card.same
  alike _ _ := false

/-- The list of cards for some records. A card without children has nothing to show. -/
def arrange (config : Config) (ranking : Ranking) (records : List Record) :
    Except PackageConflict (List Card) := do
  let listed := config.listed ranking records
  let cards ←
    if config.groupNotifications then do
      let cards ← group config.sharing listed
      pure (rankCards ranking cards)
    else
      pure ((rankRecords ranking listed).map fun r => Card.single r.ownIdentity r)
  return cards.filter fun c => 0 < c.childCount

structure Redraw where
  cards : List Card
  edits : EditScript

structure Board where
  config : Config
  cards : List Card := []

namespace Board

/-- Make a new list. If that fails, the board keeps the list it has. -/
def refresh (b : Board) (ranking : Ranking) (records : List Record) :
    Except PackageConflict (Redraw × Board) := do
  let cards ← arrange b.config ranking records
  return (⟨cards, Card.comparison.script b.cards cards⟩, { b with cards := cards })

def reset (b : Board) : Board :=
  { b with cards := [] }

end Board

end Noticeboard
