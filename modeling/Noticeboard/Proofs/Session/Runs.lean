import Noticeboard.Proofs.Session.Mutes

namespace Noticeboard

namespace Mutes

variable (car : Car) (m : Mutes) (r : Record)

def knows (m : Mutes) (key : String) : Bool :=
  (m.get? key).isSome

theorem knows_register (key : String) :
    (m.register car r).knows key ↔ m.knows key ∨ car.readsOut r ∧ r.key = key := by
  rw [knows, get?_register]
  split
  · rename_i h
    simp [h]
  · rename_i h
    simp [h, knows]

theorem knows_toggle (key : String) : (m.toggle car r).2.knows key ↔ m.knows key := by
  rw [toggle]
  split
  · cases hget : m.get? r.key with
    | none => rfl
    | some muted =>
      rw [knows, get?, Std.ExtTreeMap.getElem?_insert]
      by_cases hkey : r.key = key
      · have hknown : m.knows key := by
          rw [knows, ← hkey, hget]
          rfl
        simp [hkey, hknown]
      · simp [hkey, knows, get?]
  · rfl

end Mutes

namespace Session

inductive Request where
  | post (r : Record) (ranking : Option Ranking)
  | remove (key : String)
  | rank (ranking : Ranking)
  | toggleMute (key : String)
  | isMuted (key : String)
  | markSeen (keys : List String)
  | refresh
  | reset

inductive Reply where
  | posting (p : Posting)
  | removed (r : Option Record)
  | dropped (records : List Record)
  | toggled (t : ToggleResult)
  | muted (b : Bool)
  | list (update : Except PackageConflict Redraw)
  | done

def serve (s : Session) : Request → Reply × Session
  | .post r ranking => (.posting (s.post r ranking).1, (s.post r ranking).2)
  | .remove key => (.removed (s.remove key).1, (s.remove key).2)
  | .rank ranking => (.dropped (s.rank ranking).1, (s.rank ranking).2)
  | .toggleMute key => (.toggled (s.toggleMute key).1, (s.toggleMute key).2)
  | .isMuted key => (.muted (s.isMuted key).1, (s.isMuted key).2)
  | .markSeen keys => (.done, s.markSeen keys)
  | .refresh =>
    match s.refresh with
    | .ok (update, s) => (.list (.ok update), s)
    | .error err => (.list (.error err), s)
  | .reset => (.done, s.reset)

def after (s : Session) (requests : List Request) : Session :=
  requests.foldl (fun s q => (s.serve q).2) s

def trace (s : Session) : List Request → List (Request × Reply)
  | [] => []
  | q :: requests => (q, (s.serve q).1) :: (s.serve q).2.trace requests

theorem serve_refresh (s : Session) :
    ∃ board, (s.serve .refresh).2 = { s with board := board } := by
  rw [serve]
  cases hrefresh : s.refresh with
  | error err => exact ⟨s.board, rfl⟩
  | ok refreshed =>
    obtain ⟨-, -, hs⟩ := refresh_eq_ok hrefresh
    exact ⟨_, hs⟩

/-- The store is well-formed, and what the car can read out of it is registered. -/
structure Sound (car : Car) (s : Session) : Prop where
  store : s.store.WellFormed
  car_eq : s.car = car
  known : ∀ key r, s.store.get? key = some r → car.readsOut r → s.mutes.knows key

variable {car : Car} {s : Session}

theorem knows_isMuted {k : String} (h : s.mutes.knows k) (key : String) :
    (s.isMuted key).2.mutes.knows k := by
  rw [isMuted]
  split
  · exact (Mutes.knows_register s.car s.mutes _ k).2 (.inl h)
  · exact h

theorem knows_popsUp {k : String} (h : s.mutes.knows k) (key : String) :
    (s.popsUp key).2.mutes.knows k := by
  rw [popsUp]
  split
  · split
    · exact knows_isMuted h key
    · exact h
  · exact h

theorem knows_toggleMute (key k : String) :
    (s.toggleMute key).2.mutes.knows k ↔ s.mutes.knows k := by
  rw [toggleMute]
  split
  · exact s.mutes.knows_toggle s.car _ k
  · rfl

theorem get?_posted_cases (h : s.store.WellFormed) {r x : Record} {ranking : Option Ranking}
    {key : String} (hget : (s.posted r ranking).store.get? key = some x) :
    (r.key = key ∧ r = x) ∨ s.store.get? key = some x := by
  have hpost : (s.store.post r).get? key = some x := by
    cases ranking with
    | none => exact hget
    | some ranking =>
      change ((s.store.post r).rank ranking).get? key = some x at hget
      rw [(h.post r).get?_rank, Option.ite_none_right_eq_some] at hget
      exact hget.2
  rw [Store.get?_post] at hpost
  split at hpost
  · rename_i hkey
    exact .inl ⟨hkey, Option.some.inj hpost⟩
  · exact .inr hpost

theorem Sound.new (config : Config) (car : Car) : (Session.new config car).Sound car where
  store := .empty
  car_eq := rfl
  known key r hget := by
    change Store.empty.get? key = some r at hget
    rw [Store.get?_empty] at hget
    cases hget

/-- To forget records breaks nothing: what is registered stays so. -/
theorem Sound.forget (h : s.Sound car) {store : Store} {unseen : Unseen}
    (hstore : store.WellFormed)
    (hold : ∀ key r, store.get? key = some r → s.store.get? key = some r) :
    Sound car { s with store := store, unseen := unseen } where
  store := hstore
  car_eq := h.car_eq
  known key r hget := h.known key r (hold key r hget)

theorem Sound.register (h : s.Sound car) {mutes : Mutes}
    (hmore : ∀ key, s.mutes.knows key → mutes.knows key) :
    Sound car { s with mutes := mutes } where
  store := h.store
  car_eq := h.car_eq
  known key r hget hr := hmore key (h.known key r hget hr)

theorem Sound.posted (h : s.Sound car) (r : Record) (ranking : Option Ranking) :
    (s.posted r ranking).Sound car := by
  refine ⟨wellFormed_posted h.store r ranking, ?_, ?_⟩
  · rw [← h.car_eq]
    cases ranking with
    | none => rfl
    | some ranking => rfl
  · intro key x hget hx
    rw [mutes_posted, Mutes.knows_register, h.car_eq]
    obtain ⟨hkey, rfl⟩ | hget := get?_posted_cases h.store hget
    · exact .inr ⟨hx, hkey⟩
    · exact .inl (h.known key x hget hx)

theorem Sound.serve (h : s.Sound car) (q : Request) : (s.serve q).2.Sound car := by
  cases q with
  | post r ranking =>
    change ((s.posted r ranking).popsUp r.key).2.Sound car
    rw [popsUp_snd]
    apply (h.posted r ranking).register
    intro key hkey
    exact knows_popsUp hkey r.key
  | remove key =>
    apply h.forget (h.store.remove key)
    intro k r hget
    rw [Store.get?_remove, Option.ite_none_left_eq_some] at hget
    exact hget.2
  | rank ranking =>
    apply h.forget (h.store.rank ranking)
    intro k r hget
    rw [h.store.get?_rank, Option.ite_none_right_eq_some] at hget
    exact hget.2
  | toggleMute key =>
    change (s.toggleMute key).2.Sound car
    rw [toggleMute_snd]
    apply h.register
    intro k hk
    exact (knows_toggleMute key k).2 hk
  | isMuted key =>
    change (s.isMuted key).2.Sound car
    rw [isMuted_snd]
    apply h.register
    intro k hk
    exact knows_isMuted hk key
  | markSeen keys => exact ⟨h.store, h.car_eq, h.known⟩
  | refresh =>
    obtain ⟨board, hs⟩ := s.serve_refresh
    rw [hs]
    exact ⟨h.store, h.car_eq, h.known⟩
  | reset =>
    have hnew := Sound.new s.config s.car
    exact ⟨hnew.store, h.car_eq, h.car_eq ▸ hnew.known⟩

theorem sound_after (config : Config) (car : Car) (requests : List Request) :
    ((Session.new config car).after requests).Sound car := by
  have hrun : ∀ s : Session, s.Sound car → (s.after requests).Sound car := by
    induction requests with
    | nil => exact fun s h => h
    | cons q requests ih => exact fun s h => ih (s.serve q).2 (h.serve q)
  exact hrun _ (.new config car)

end Session

end Noticeboard
