import Std.Data.ExtTreeSet

namespace Noticeboard

structure Unseen where
  keys : Std.ExtTreeSet String := ∅

namespace Unseen

def contains (u : Unseen) (key : String) : Bool :=
  u.keys.contains key

def size (u : Unseen) : Nat :=
  u.keys.size

def insert (u : Unseen) (key : String) : Unseen :=
  ⟨u.keys.insert key⟩

def erase (u : Unseen) (key : String) : Unseen :=
  ⟨u.keys.erase key⟩

def eraseMany (u : Unseen) (keys : List String) : Unseen :=
  keys.foldl erase u

def retain (u : Unseen) (live : String → Bool) : Unseen :=
  ⟨u.keys.filter live⟩

@[ext]
theorem ext_contains {u v : Unseen} (h : ∀ key, u.contains key = v.contains key) : u = v := by
  cases u
  cases v
  congr
  exact Std.ExtTreeSet.ext_contains h

@[simp]
theorem contains_insert (u : Unseen) (key k : String) :
    (u.insert key).contains k = (decide (key = k) || u.contains k) := by
  rw [Bool.eq_iff_iff]
  simp [insert, contains]

@[simp]
theorem contains_erase (u : Unseen) (key k : String) :
    (u.erase key).contains k = (decide (key ≠ k) && u.contains k) := by
  rw [Bool.eq_iff_iff]
  simp [erase, contains]

@[simp]
theorem contains_retain (u : Unseen) (live : String → Bool) (k : String) :
    (u.retain live).contains k = (u.contains k && live k) := by
  rw [Bool.eq_iff_iff]
  simp [retain, contains, Std.ExtTreeSet.mem_filter]

@[simp]
theorem contains_eraseMany (u : Unseen) (keys : List String) (k : String) :
    (u.eraseMany keys).contains k = (u.contains k && !keys.contains k) := by
  induction keys generalizing u with
  | nil => simp [eraseMany]
  | cons key keys ih =>
    have h := ih (u.erase key)
    simp only [eraseMany, List.foldl_cons] at h ⊢
    rw [h, contains_erase, List.contains_cons]
    by_cases hk : key = k
    · simp [hk]
    · simp [hk, beq_eq_false_iff_ne.2 (Ne.symm hk)]

end Unseen

end Noticeboard
