import Noticeboard.Board.Basic
import Noticeboard.HeadsUp
import Noticeboard.Session.Mutes
import Noticeboard.Session.Store
import Noticeboard.Session.Unseen

namespace Noticeboard

structure Session where
  car : Car
  board : Board
  store : Store := .empty
  mutes : Mutes := {}
  unseen : Unseen := {}

structure Posting where
  key : String
  replaced : Bool
  headsUp : Bool
  deriving DecidableEq, Repr

namespace Session

def new (config : Config) (car : Car) : Session where
  car := car
  board := ⟨config, []⟩

def config (s : Session) : Config :=
  s.board.config

def cards (s : Session) : List Card :=
  s.board.cards

/-- Take a new ranking. The answer is the records that it drops. -/
def rank (s : Session) (ranking : Ranking) : List Record × Session :=
  let store := s.store.rank ranking
  (s.store.unlisted ranking,
    { s with store := store, unseen := s.unseen.retain store.contains })

def isMuted (s : Session) (key : String) : Bool × Session :=
  match s.store.get? key with
  | some r =>
    let (muted, mutes) := s.mutes.isMuted s.car r
    (muted, { s with mutes := mutes })
  | none => (false, s)

/-- Whether the record of a key pops up: it has to be there still, to deserve it, and not to be
muted. -/
def popsUp (s : Session) (key : String) : Bool × Session :=
  match s.store.get? key with
  | some r =>
    if r.deservesHeadsUp s.store.ranking then
      let (muted, s) := s.isMuted key
      (!muted, s)
    else (false, s)
  | none => (false, s)

def post (s : Session) (r : Record) (ranking : Option Ranking) : Posting × Session :=
  let replaced := s.store.contains r.key
  let s := { s with
    mutes := s.mutes.register s.car r
    unseen := s.unseen.insert r.key
    store := s.store.post r }
  let s := match ranking with
    | some ranking => (s.rank ranking).2
    | none => s
  let (headsUp, s) := s.popsUp r.key
  (⟨r.key, replaced, headsUp⟩, s)

def remove (s : Session) (key : String) : Option Record × Session :=
  (s.store.get? key,
    { s with store := s.store.remove key, unseen := s.unseen.erase key })

def refresh (s : Session) : Except PackageConflict (Redraw × Session) := do
  let (update, board) ← s.board.refresh s.store.ranking s.store.toList
  return (update, { s with board := board })

def toggleMute (s : Session) (key : String) : ToggleResult × Session :=
  match s.store.get? key with
  | some r =>
    let (toggle, mutes) := s.mutes.toggle s.car r
    (toggle, { s with mutes := mutes })
  | none => (.notStored, s)

def markSeen (s : Session) (keys : List String) : Session :=
  { s with unseen := s.unseen.eraseMany keys }

def reset (s : Session) : Session where
  car := s.car
  board := s.board.reset

end Session

end Noticeboard
