import Noticeboard.Proofs.Session.Store
import Noticeboard.Session.Basic

namespace Noticeboard

namespace Session

variable (s : Session)

theorem isMuted_snd (key : String) :
    (s.isMuted key).2 = { s with mutes := (s.isMuted key).2.mutes } := by
  rw [isMuted]
  split
  · rfl
  · rfl

theorem popsUp_snd (key : String) :
    (s.popsUp key).2 = { s with mutes := (s.popsUp key).2.mutes } := by
  rw [popsUp]
  split
  · split
    · exact s.isMuted_snd key
    · rfl
  · rfl

theorem toggleMute_snd (key : String) :
    (s.toggleMute key).2 = { s with mutes := (s.toggleMute key).2.mutes } := by
  rw [toggleMute]
  split
  · rfl
  · rfl

theorem contains_of_popsUp {key : String} (h : (s.popsUp key).1) : s.store.contains key := by
  rw [Store.contains_eq_isSome_get?]
  cases hget : s.store.get? key with
  | none => simp [popsUp, hget] at h
  | some r => rfl

def posted (r : Record) (ranking : Option Ranking) : Session :=
  let stored : Session := { s with
    mutes := s.mutes.register s.car r
    unseen := s.unseen.insert r.key
    store := s.store.post r }
  match ranking with
  | some ranking => (stored.rank ranking).2
  | none => stored

theorem post_eq (r : Record) (ranking : Option Ranking) :
    s.post r ranking =
      (⟨r.key, s.store.contains r.key, ((s.posted r ranking).popsUp r.key).1⟩,
        ((s.posted r ranking).popsUp r.key).2) :=
  rfl

theorem board_post (r : Record) (ranking : Option Ranking) :
    (s.post r ranking).2.board = s.board := by
  rw [post_eq, popsUp_snd]
  cases ranking with
  | none => rfl
  | some ranking => rfl

theorem store_post (r : Record) (ranking : Option Ranking) :
    (s.post r ranking).2.store = ranking.elim (s.store.post r) (s.store.post r).rank := by
  rw [post_eq, popsUp_snd]
  cases ranking with
  | none => rfl
  | some ranking => rfl

theorem contains_of_post_headsUp {r : Record} {ranking : Option Ranking}
    (h : (s.post r ranking).1.headsUp) : (s.post r ranking).2.store.contains r.key := by
  rw [post_eq, popsUp_snd]
  exact contains_of_popsUp (s.posted r ranking) h

variable {s} in
theorem refresh_eq_ok {list : Redraw} {s' : Session} (h : s.refresh = .ok (list, s')) :
    arrange s.config s.store.ranking s.store.toList = .ok list.cards ∧
      list.edits = Card.comparison.script s.cards list.cards ∧
      s' = { s with board := { s.board with cards := list.cards } } := by
  rw [refresh, Board.refresh] at h
  cases harrange : arrange s.board.config s.store.ranking s.store.toList with
  | error err =>
    rw [harrange] at h
    cases h
  | ok cards =>
    rw [harrange] at h
    cases h
    exact ⟨harrange, rfl, rfl⟩

theorem arrange_nil (config : Config) (ranking : Ranking) : arrange config ranking [] = .ok [] := by
  have hlisted : config.listed ranking [] = [] := rfl
  have hgroup : group config.sharing [] = .ok [] := rfl
  have hcards : rankCards ranking [] = [] := List.mergeSort_nil
  have hrecords : rankRecords ranking [] = [] := List.mergeSort_nil
  rw [arrange, hlisted, hgroup, hrecords]
  cases config.groupNotifications with
  | true =>
    change Except.ok ((rankCards ranking []).filter _) = _
    rw [hcards]
    rfl
  | false => rfl

theorem refresh_reset {list : Redraw} {s' : Session} (h : s.reset.refresh = .ok (list, s')) :
    list.cards = [] := by
  obtain ⟨harrange, -, -⟩ := refresh_eq_ok h
  have hnone := arrange_nil s.reset.config s.reset.store.ranking
  rw [show s.reset.store.toList = [] from rfl, hnone] at harrange
  exact (Except.ok.inj harrange).symm

end Session

end Noticeboard
