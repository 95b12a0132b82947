import Mathlib.Data.List.Induction
import Noticeboard.Proofs.Session.Roster
import Noticeboard.Proofs.Session.Runs

namespace Noticeboard

theorem Unseen.size_eq_length {u : Unseen} {keys : List String} (hkeys : keys.Nodup)
    (h : ∀ key, u.contains key ↔ key ∈ keys) : u.size = keys.length := by
  have hnodup : u.keys.toList.Nodup := by
    apply Std.ExtTreeSet.distinct_toList.imp
    rintro a b hne rfl
    exact hne Std.ReflCmp.compare_self
  have hperm : u.keys.toList.Perm keys := by
    rw [List.perm_ext_iff_of_nodup hnodup hkeys]
    intro key
    rw [Std.ExtTreeSet.mem_toList, ← h]
    exact Std.ExtTreeSet.contains_iff_mem.symm
  rw [Unseen.size, ← Std.ExtTreeSet.length_toList, hperm.length_eq]

namespace Session

namespace Request

def posts (key : String) : Request → Bool
  | post r _ => r.key == key
  | _ => false

def looksAt (key : String) : Request → Bool
  | markSeen keys => keys.contains key
  | _ => false

end Request

/-- The requests since a key was posted last, the latest first. -/
def sincePost (key : String) (requests : List Request) : List Request :=
  requests.reverse.takeWhile (!·.posts key)

def isUnread (key : String) (requests : List Request) : Bool :=
  (sincePost key requests).all (!·.looksAt key)

theorem isUnread_concat (key : String) (requests : List Request) (q : Request) :
    isUnread key (requests ++ [q]) = (q.posts key || isUnread key requests && !q.looksAt key) := by
  rw [isUnread, sincePost, List.reverse_concat, List.takeWhile_cons]
  cases q.posts key with
  | true => rfl
  | false =>
    change (!q.looksAt key && isUnread key requests) = _
    rw [Bool.false_or, Bool.and_comm]

/-- Of the keys in the store the unread ones are unseen, and nothing else is. -/
def Counts (s : Session) (unread : String → Bool) : Prop :=
  ∀ key, s.unseen.contains key = (s.store.contains key && unread key)

namespace Counts

variable {s : Session} {unread : String → Bool}

theorem new (config : Config) (car : Car) : (Session.new config car).Counts unread := by
  intro key
  have hstore : Store.empty.contains key = false := by
    rw [Store.contains_eq_isSome_get?, Store.get?_empty]
    rfl
  have hunseen : Unseen.contains {} key = false := Std.ExtTreeSet.contains_empty
  change Unseen.contains {} key = (Store.empty.contains key && unread key)
  rw [hstore, hunseen, Bool.false_and]

theorem congr (h : s.Counts unread) {later : String → Bool}
    (hlater : ∀ key, later key = unread key) : s.Counts later := by
  intro key
  rw [hlater]
  exact h key

theorem stored (h : s.Counts unread) (r : Record) (mutes : Mutes) :
    Counts { s with mutes := mutes, unseen := s.unseen.insert r.key, store := s.store.post r }
      fun key => r.key == key || unread key := by
  intro key
  change (s.unseen.insert r.key).contains key = ((s.store.post r).contains key && _)
  rw [Unseen.contains_insert, h key, Bool.eq_iff_iff, Bool.and_eq_true, Store.contains_post]
  by_cases hkey : r.key = key
  · simp [hkey]
  · simp [hkey]

theorem rank (h : s.Counts unread) (hs : s.store.WellFormed) (ranking : Ranking) :
    (s.rank ranking).2.Counts unread := by
  intro key
  change (s.unseen.retain (s.store.rank ranking).contains).contains key =
    ((s.store.rank ranking).contains key && unread key)
  rw [Unseen.contains_retain, h key, Bool.eq_iff_iff, Bool.and_eq_true, Bool.and_eq_true,
    Bool.and_eq_true, hs.contains_rank]
  constructor
  · rintro ⟨⟨-, hunread⟩, hlive⟩
    exact ⟨hlive, hunread⟩
  · rintro ⟨hlive, hunread⟩
    exact ⟨⟨hlive.2, hunread⟩, hlive⟩

theorem post (h : s.Counts unread) (hs : s.store.WellFormed) (r : Record)
    (ranking : Option Ranking) :
    (s.post r ranking).2.Counts fun key => r.key == key || unread key := by
  have hposted : (s.posted r ranking).Counts fun key => r.key == key || unread key := by
    have hstored := h.stored r (s.mutes.register s.car r)
    cases ranking with
    | none => exact hstored
    | some ranking => exact hstored.rank (hs.post r) ranking
  rw [post_eq, popsUp_snd]
  exact hposted

theorem remove (h : s.Counts unread) (key : String) : (s.remove key).2.Counts unread := by
  intro k
  change (s.unseen.erase key).contains k = ((s.store.remove key).contains k && unread k)
  rw [Unseen.contains_erase, h k, Bool.eq_iff_iff, Bool.and_eq_true, Bool.and_eq_true,
    Bool.and_eq_true, Store.contains_remove, decide_eq_true_iff, and_assoc]

theorem markSeen (h : s.Counts unread) (keys : List String) :
    (s.markSeen keys).Counts fun key => unread key && !keys.contains key := by
  intro key
  change (s.unseen.eraseMany keys).contains key = _
  rw [Unseen.contains_eraseMany, h key, Bool.and_assoc]
  rfl

theorem serve (h : s.Counts unread) (hs : s.store.WellFormed) (q : Request) :
    (s.serve q).2.Counts fun key => q.posts key || unread key && !q.looksAt key := by
  have hkept : ∀ t : Session, t.unseen = s.unseen → t.store = s.store →
      t.Counts fun key => unread key && true := by
    intro t hunseen hstore key
    rw [hunseen, hstore, h key]
    exact congrArg _ (Bool.and_true _).symm
  cases q with
  | post r ranking =>
    apply (h.post hs r ranking).congr
    intro key
    exact congrArg _ (Bool.and_true _)
  | remove key => exact (h.remove key).congr fun k => Bool.and_true _
  | rank ranking => exact (h.rank hs ranking).congr fun k => Bool.and_true _
  | toggleMute key =>
    apply hkept (s.toggleMute key).2
    · rw [toggleMute_snd]
    · rw [toggleMute_snd]
  | isMuted key =>
    apply hkept (s.isMuted key).2
    · rw [isMuted_snd]
    · rw [isMuted_snd]
  | markSeen keys => exact h.markSeen keys
  | refresh =>
    obtain ⟨board, hboard⟩ := s.serve_refresh
    apply hkept (s.serve .refresh).2
    · rw [hboard]
    · rw [hboard]
  | reset => exact new s.config s.car

end Counts

variable (config : Config) (car : Car)

theorem counts_after (requests : List Request) :
    ((Session.new config car).after requests).Counts (isUnread · requests) := by
  induction requests using List.reverseRecOn with
  | nil => exact .new config car
  | append_singleton requests q ih =>
    have hs := (sound_after config car requests).store
    have hlast : (Session.new config car).after (requests ++ [q]) =
        (((Session.new config car).after requests).serve q).2 := by
      rw [after, List.foldl_append]
      rfl
    rw [hlast]
    apply (ih.serve hs q).congr
    intro key
    exact isUnread_concat key requests q

/-- In every run a key is unseen just if it is stored and no request since its last post has looked
at it. So what is unseen is stored, and the unseen keys are as many as the stored records that
nobody has looked at since they were posted or posted again. -/
theorem unseen_after (requests : List Request) :
    let s := (Session.new config car).after requests
    (∀ key, s.unseen.contains key ↔
      s.store.contains key ∧ ∀ q ∈ sincePost key requests, ¬ q.looksAt key) ∧
    (∀ key, s.unseen.contains key → s.store.contains key) ∧
    s.unseen.size =
      (s.store.toList.filter fun r => isUnread r.key requests).length := by
  intro s
  have hcounts : s.Counts (isUnread · requests) := counts_after config car requests
  have hs : s.store.WellFormed := (sound_after config car requests).store
  have hunseen : ∀ key, s.unseen.contains key ↔ s.store.contains key ∧ isUnread key requests := by
    intro key
    rw [hcounts key, Bool.and_eq_true]
  refine ⟨?_, ?_, ?_⟩
  · intro key
    rw [hunseen, isUnread, List.all_eq_true]
    simp only [Bool.not_eq_true', Bool.not_eq_true]
  · intro key h
    exact ((hunseen key).1 h).1
  · rw [← List.length_map Record.key]
    apply Unseen.size_eq_length
    · exact hs.standsFor.distinct.sublist (List.filter_sublist.map Record.key)
    · intro key
      rw [hunseen, hs.standsFor.contains, List.mem_map]
      constructor
      · rintro ⟨⟨r, hr, rfl⟩, hunread⟩
        exact ⟨r, List.mem_filter.2 ⟨hr, hunread⟩, rfl⟩
      · rintro ⟨r, hr, rfl⟩
        obtain ⟨hmem, hunread⟩ := List.mem_filter.1 hr
        exact ⟨⟨r, hmem, rfl⟩, hunread⟩

end Session

end Noticeboard
