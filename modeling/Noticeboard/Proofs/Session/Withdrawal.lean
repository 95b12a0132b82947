import Noticeboard.Proofs.Session.Toggles
import Noticeboard.Proofs.Session.Unseen

namespace Noticeboard

theorem Store.WellFormed.remove_post {s : Store} (h : s.WellFormed) {r : Record}
    (hnew : ¬ s.contains r.key) : (s.post r).remove r.key = s := by
  have horder : ((s.post r).remove r.key).order = s.order := by
    have hkeys : (s.post r).order = s.order ++ [r.key] := by simp [Store.post, hnew]
    rw [order_remove (h.post r), hkeys, List.filter_append, h.filter_order hnew]
    simp
  have hrecords : ((s.post r).remove r.key).records = s.records := by
    apply Std.ExtTreeMap.ext_getElem?
    intro key
    change ((s.post r).remove r.key).get? key = s.get? key
    rw [get?_remove, get?_post]
    by_cases hkey : r.key = key
    · rw [if_pos hkey, ← hkey]
      rw [contains_eq_isSome_get?, Option.not_isSome_iff_eq_none] at hnew
      exact hnew.symm
    · rw [if_neg hkey, if_neg hkey]
  cases s
  exact congrArg₂ (Store.mk · · _) horder hrecords

theorem Unseen.erase_insert {u : Unseen} {key : String} (hnew : ¬ u.contains key) :
    (u.insert key).erase key = u := by
  apply Unseen.ext_contains
  intro k
  rw [contains_erase, contains_insert]
  by_cases hkey : key = k
  · simp [← hkey, hnew]
  · simp [hkey]

namespace Session

variable {car : Car} {s t : Session}

/-- The sessions are the same but for what is registered, and the same keys are muted. -/
def Alike (s t : Session) : Prop :=
  ∃ mutes, t = { s with mutes := mutes } ∧ ∀ key, mutes.silences key = s.mutes.silences key

namespace Alike

theorem store_eq (h : Alike s t) : t.store = s.store := by
  obtain ⟨mutes, rfl, -⟩ := h
  rfl

theorem silences_eq (h : Alike s t) (key : String) :
    t.mutes.silences key = s.mutes.silences key := by
  obtain ⟨mutes, rfl, hsilences⟩ := h
  exact hsilences key

theorem of_mutes {s' t' : Session} (h : Alike s t) (hs : s' = { s with mutes := s'.mutes })
    (ht : t' = { t with mutes := t'.mutes })
    (hsilences : ∀ key, t'.mutes.silences key = s'.mutes.silences key) : Alike s' t' := by
  obtain ⟨mutes, rfl, -⟩ := h
  refine ⟨t'.mutes, ?_, hsilences⟩
  rw [hs]
  exact ht

theorem isMuted (h : Alike s t) (key : String) :
    (t.isMuted key).1 = (s.isMuted key).1 ∧ Alike (s.isMuted key).2 (t.isMuted key).2 := by
  constructor
  · rw [Session.isMuted, Session.isMuted, h.store_eq]
    cases s.store.get? key with
    | none => rfl
    | some r =>
      change (t.mutes.isMuted t.car r).1 = (s.mutes.isMuted s.car r).1
      rw [Mutes.isMuted_fst, Mutes.isMuted_fst, h.silences_eq]
  · apply h.of_mutes (s.isMuted_snd key) (t.isMuted_snd key)
    intro k
    rw [silences_isMuted, silences_isMuted, h.silences_eq]

theorem popsUp (h : Alike s t) (key : String) :
    (t.popsUp key).1 = (s.popsUp key).1 ∧ Alike (s.popsUp key).2 (t.popsUp key).2 := by
  constructor
  · rw [Session.popsUp, Session.popsUp, h.store_eq]
    cases s.store.get? key with
    | none => rfl
    | some r =>
      dsimp only
      split
      · exact congrArg (!·) (h.isMuted key).1
      · rfl
  · apply h.of_mutes (s.popsUp_snd key) (t.popsUp_snd key)
    intro k
    rw [silences_popsUp, silences_popsUp, h.silences_eq]

theorem posted (h : Alike s t) (r : Record) (ranking : Option Ranking) :
    Alike (s.posted r ranking) (t.posted r ranking) := by
  obtain ⟨mutes, rfl, hsilences⟩ := h
  refine ⟨mutes.register s.car r, ?_, fun key => ?_⟩
  · cases ranking with
    | none => rfl
    | some ranking => rfl
  · rw [mutes_posted, Mutes.silences_register, Mutes.silences_register, hsilences]

theorem post (h : Alike s t) (r : Record) (ranking : Option Ranking) :
    (t.post r ranking).1 = (s.post r ranking).1 ∧
      Alike (s.post r ranking).2 (t.post r ranking).2 := by
  obtain ⟨hup, hafter⟩ := (h.posted r ranking).popsUp r.key
  rw [post_eq, post_eq, hup, h.store_eq]
  exact ⟨rfl, hafter⟩

/-- To toggle a record says whether it is registered. Records in the store that the car can read out
always are. -/
theorem toggleMute (h : Alike s t) (hs : s.Sound car) (ht : t.Sound car) (key : String) :
    (t.toggleMute key).1 = (s.toggleMute key).1 ∧
      Alike (s.toggleMute key).2 (t.toggleMute key).2 := by
  have hanswer : (t.toggleMute key).1 = (s.toggleMute key).1 := by
    rw [ht.toggleMute_eq, hs.toggleMute_eq, h.silences_eq, h.store_eq]
  refine ⟨hanswer, h.of_mutes (s.toggleMute_snd key) (t.toggleMute_snd key) fun k => ?_⟩
  rw [silences_toggleMute ht.store, silences_toggleMute hs.store, hanswer, h.silences_eq]

theorem serve (h : Alike s t) (hs : s.Sound car) (ht : t.Sound car) (q : Request) :
    (t.serve q).1 = (s.serve q).1 ∧ Alike (s.serve q).2 (t.serve q).2 := by
  cases q with
  | post r ranking =>
    obtain ⟨hanswer, hafter⟩ := h.post r ranking
    exact ⟨congrArg Reply.posting hanswer, hafter⟩
  | toggleMute key =>
    obtain ⟨hanswer, hafter⟩ := h.toggleMute hs ht key
    exact ⟨congrArg Reply.toggled hanswer, hafter⟩
  | isMuted key =>
    obtain ⟨hanswer, hafter⟩ := h.isMuted key
    exact ⟨congrArg Reply.muted hanswer, hafter⟩
  | refresh =>
    obtain ⟨mutes, rfl, hsilences⟩ := h
    rw [Session.serve, Session.serve, Session.refresh, Session.refresh]
    dsimp only
    cases s.board.refresh s.store.ranking s.store.toList with
    | error err => exact ⟨rfl, mutes, rfl, hsilences⟩
    | ok refreshed => exact ⟨rfl, mutes, rfl, hsilences⟩
  | remove key =>
    obtain ⟨mutes, rfl, hsilences⟩ := h
    exact ⟨rfl, mutes, rfl, hsilences⟩
  | rank ranking =>
    obtain ⟨mutes, rfl, hsilences⟩ := h
    exact ⟨rfl, mutes, rfl, hsilences⟩
  | markSeen keys =>
    obtain ⟨mutes, rfl, hsilences⟩ := h
    exact ⟨rfl, mutes, rfl, hsilences⟩
  | reset =>
    obtain ⟨mutes, rfl, -⟩ := h
    exact ⟨rfl, {}, rfl, fun _ => rfl⟩

theorem trace (h : Alike s t) (hs : s.Sound car) (ht : t.Sound car) (requests : List Request) :
    t.trace requests = s.trace requests ∧ Alike (s.after requests) (t.after requests) := by
  induction requests generalizing s t with
  | nil => exact ⟨rfl, h⟩
  | cons q requests ih =>
    obtain ⟨hanswer, hafter⟩ := h.serve hs ht q
    obtain ⟨htrace, hlater⟩ := ih hafter (hs.serve q) (ht.serve q)
    rw [Session.trace, Session.trace, hanswer, htrace]
    exact ⟨rfl, hlater⟩

end Alike

def withdrawn (s : Session) (r : Record) : Session :=
  s.after [.post r none, .remove r.key]

theorem alike_withdrawn (hs : s.store.WellFormed) {r : Record} (hnew : ¬ s.store.contains r.key)
    (hunseen : ¬ s.unseen.contains r.key) : Alike s (s.withdrawn r) := by
  refine ⟨(s.post r none).2.mutes, ?_, silences_post s r none⟩
  change ((s.post r none).2.remove r.key).2 = _
  rw [post_eq, popsUp_snd]
  change ({ s with
    store := (s.store.post r).remove r.key
    mutes := _
    unseen := (s.unseen.insert r.key).erase r.key } : Session) = _
  rw [hs.remove_post hnew, Unseen.erase_insert hunseen]

/-- In every session a record that is not there may be posted and removed again, and whatever is
asked of the session later, the answers, the list, the edits and the number of unseen records are
those of the session without the record. -/
theorem withdrawn_unobservable (config : Config) (car : Car) (requests : List Request) (r : Record)
    (hnew : ¬ ((Session.new config car).after requests).store.contains r.key)
    (later : List Request) :
    let s := (Session.new config car).after requests
    (s.withdrawn r).trace later = s.trace later ∧
    ((s.withdrawn r).after later).store = (s.after later).store ∧
    ((s.withdrawn r).after later).cards = (s.after later).cards ∧
    ((s.withdrawn r).after later).unseen.size = (s.after later).unseen.size := by
  intro s
  have hs : s.Sound car := sound_after config car requests
  have hunseen : ¬ s.unseen.contains r.key := by
    rw [counts_after config car requests r.key, Bool.and_eq_true]
    exact fun hboth => hnew hboth.1
  have halike : Alike s (s.withdrawn r) := alike_withdrawn hs.store hnew hunseen
  obtain ⟨htrace, mutes, hafter, -⟩ :=
    halike.trace hs ((hs.serve (.post r none)).serve (.remove r.key)) later
  rw [hafter]
  exact ⟨htrace, rfl, rfl, rfl⟩

def alarmed : List Request :=
  [.post Center.alert none, .remove "a"]

def resumed : List Request :=
  [.isMuted "a", .post Center.alert none, .toggleMute "a", .post Center.talk none, .toggleMute "a",
    .isMuted "a", .refresh]

theorem unobservable_talk :
    let s := (Session.new .default .default).after alarmed
    ¬ s.store.contains Center.talk.key ∧
      (s.withdrawn Center.talk).mutes.knows "a" ∧ ¬ s.mutes.knows "a" ∧
      (s.withdrawn Center.talk).trace resumed = s.trace resumed := by
  intro s
  have hnew : ¬ s.store.contains Center.talk.key := by decide +kernel
  have hknown : (s.withdrawn Center.talk).mutes.knows "a" := by decide +kernel
  have hunknown : ¬ s.mutes.knows "a" := by decide +kernel
  obtain ⟨htrace, -⟩ := withdrawn_unobservable .default .default alarmed Center.talk hnew resumed
  exact ⟨hnew, hknown, hunknown, htrace⟩

end Session

end Noticeboard
