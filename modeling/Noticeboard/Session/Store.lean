import Noticeboard.Ranking
import Noticeboard.Record.Basic

namespace Noticeboard

structure Store where
  order : List String := []
  records : Std.ExtTreeMap String Record := ∅
  ranking : Ranking := {}

namespace Store

def empty : Store :=
  {}

def get? (s : Store) (key : String) : Option Record :=
  s.records[key]?

def contains (s : Store) (key : String) : Bool :=
  s.records.contains key

def size (s : Store) : Nat :=
  s.records.size

def isEmpty (s : Store) : Bool :=
  s.records.isEmpty

def toList (s : Store) : List Record :=
  s.order.filterMap s.get?

/-- Add a record, or put it in the place of the one with its key. -/
def post (s : Store) (r : Record) : Store where
  order := if s.contains r.key then s.order else s.order ++ [r.key]
  records := s.records.insert r.key r
  ranking := s.ranking

def remove (s : Store) (key : String) : Store where
  order := if s.contains key then s.order.filter (· != key) else s.order
  records := s.records.erase key
  ranking := s.ranking

def unlistedKeys (s : Store) (ranking : Ranking) : List String :=
  s.order.filter fun key => !ranking.contains key

def unlisted (s : Store) (ranking : Ranking) : List Record :=
  (s.unlistedKeys ranking).filterMap s.get?

/-- Take a new ranking and drop the records that it does not list. -/
def rank (s : Store) (ranking : Ranking) : Store :=
  (s.unlistedKeys ranking).foldl remove { s with ranking := ranking }

@[simp]
theorem get?_empty (key : String) : empty.get? key = none := by
  simp [get?, empty]

@[simp]
theorem get?_post (s : Store) (r : Record) (key : String) :
    (s.post r).get? key = if r.key = key then some r else s.get? key := by
  simp [get?, post, Std.ExtTreeMap.getElem?_insert]

@[simp]
theorem get?_remove (s : Store) (key k : String) :
    (s.remove key).get? k = if key = k then none else s.get? k := by
  simp [get?, remove, Std.ExtTreeMap.getElem?_erase]

theorem contains_eq_isSome_get? (s : Store) (key : String) :
    s.contains key = (s.get? key).isSome := by
  simp [get?, contains]

end Store

end Noticeboard
