import Noticeboard.Proofs.Session.Operations

namespace Noticeboard

def ToggleResult.succeeds : ToggleResult → Bool
  | muted | unmuted => true
  | notMessage | notRegistered | notStored => false

namespace Mutes

variable (car : Car) (m : Mutes) (r : Record)

def silences (m : Mutes) (key : String) : Bool :=
  (m.get? key).getD false

@[simp]
theorem silences_register (key : String) : (m.register car r).silences key = m.silences key := by
  rw [silences, get?_register]
  split
  · rfl
  · rfl

theorem isMuted_fst : (m.isMuted car r).1 = m.silences r.key :=
  m.silences_register car r r.key

theorem silences_insert (key : String) (muted : Bool) (k : String) :
    silences ⟨m.flags.insert key muted⟩ k = if key = k then muted else m.silences k := by
  rw [silences, get?, Std.ExtTreeMap.getElem?_insert]
  by_cases hkey : key = k
  · simp [hkey]
  · simp [hkey, silences, get?]

theorem silences_toggle (key : String) :
    (m.toggle car r).2.silences key =
      if (m.toggle car r).1.succeeds ∧ r.key = key then !m.silences key else m.silences key := by
  by_cases hr : car.readsOut r
  · cases hget : m.get? r.key with
    | none => simp [toggle, hr, hget, ToggleResult.succeeds]
    | some muted =>
      have hflag : m.silences r.key = muted := by rw [silences, hget]; rfl
      have hsucceeds : (if muted then ToggleResult.unmuted else .muted).succeeds := by
        cases muted <;> rfl
      simp only [toggle, hr, hget, if_true, silences_insert, hsucceeds, true_and]
      by_cases hkey : r.key = key
      · rw [if_pos hkey, if_pos hkey, ← hkey, hflag]
      · rw [if_neg hkey, if_neg hkey]
  · simp [toggle, hr, ToggleResult.succeeds]

end Mutes

namespace Session

variable (s : Session)

theorem silences_isMuted (key k : String) :
    (s.isMuted key).2.mutes.silences k = s.mutes.silences k := by
  rw [isMuted]
  split
  · exact s.mutes.silences_register s.car _ k
  · rfl

theorem silences_popsUp (key k : String) :
    (s.popsUp key).2.mutes.silences k = s.mutes.silences k := by
  rw [popsUp]
  split
  · split
    · exact s.silences_isMuted key k
    · rfl
  · rfl

theorem mutes_posted (r : Record) (ranking : Option Ranking) :
    (s.posted r ranking).mutes = s.mutes.register s.car r := by
  cases ranking with
  | none => rfl
  | some ranking => rfl

theorem silences_post (r : Record) (ranking : Option Ranking) (key : String) :
    (s.post r ranking).2.mutes.silences key = s.mutes.silences key := by
  rw [post_eq, silences_popsUp, mutes_posted, Mutes.silences_register]

variable {s}

theorem silences_toggleMute (h : s.store.WellFormed) (key k : String) :
    (s.toggleMute key).2.mutes.silences k =
      if (s.toggleMute key).1.succeeds ∧ key = k then !s.mutes.silences k
      else s.mutes.silences k := by
  rw [toggleMute]
  cases hget : s.store.get? key with
  | none => simp [ToggleResult.succeeds]
  | some r =>
    have hown : r.key = key := h.own key r hget
    dsimp only
    rw [Mutes.silences_toggle, hown]

/-- Whether the record of a key pops up is asked of the key, whatever the car can do with the
record. -/
theorem popsUp_fst (h : s.store.WellFormed) (key : String) :
    (s.popsUp key).1 ↔
      ∃ r, s.store.get? key = some r ∧ r.deservesHeadsUp s.store.ranking ∧
        ¬ s.mutes.silences key := by
  cases hget : s.store.get? key with
  | none => simp [popsUp, hget]
  | some r =>
    have hmuted : (s.isMuted key).1 = s.mutes.silences key := by
      rw [isMuted, hget]
      dsimp only
      rw [Mutes.isMuted_fst, h.own key r hget]
    by_cases hr : r.deservesHeadsUp s.store.ranking
    · simp [popsUp, hget, hr, hmuted]
    · simp [popsUp, hget, hr]

theorem store_post_eq_posted (r : Record) (ranking : Option Ranking) :
    (s.post r ranking).2.store = (s.posted r ranking).store := by
  rw [post_eq, popsUp_snd]

theorem wellFormed_posted (h : s.store.WellFormed) (r : Record) (ranking : Option Ranking) :
    (s.posted r ranking).store.WellFormed := by
  cases ranking with
  | none => exact h.post r
  | some ranking => exact (h.post r).rank ranking

theorem get?_posted (h : s.store.WellFormed) (r x : Record) (ranking : Option Ranking) :
    (s.posted r ranking).store.get? r.key = some x ↔
      (∀ listed, ranking = some listed → listed.contains r.key) ∧ r = x := by
  cases ranking with
  | none =>
    change (s.store.post r).get? r.key = some x ↔ _
    simp
  | some ranking =>
    change ((s.store.post r).rank ranking).get? r.key = some x ↔ _
    rw [(h.post r).get?_rank]
    simp

theorem post_headsUp_iff (h : s.store.WellFormed) (r : Record) (ranking : Option Ranking) :
    (s.post r ranking).1.headsUp ↔
      (∀ listed, ranking = some listed → listed.contains r.key) ∧
        r.deservesHeadsUp (s.post r ranking).2.store.ranking ∧ ¬ s.mutes.silences r.key := by
  rw [store_post_eq_posted, post_eq, popsUp_fst (wellFormed_posted h r ranking), mutes_posted,
    Mutes.silences_register]
  constructor
  · rintro ⟨x, hget, hx⟩
    obtain ⟨hlisted, rfl⟩ := (get?_posted h r x ranking).1 hget
    exact ⟨hlisted, hx⟩
  · rintro ⟨hlisted, hr⟩
    exact ⟨r, (get?_posted h r r ranking).2 ⟨hlisted, rfl⟩, hr⟩

end Session

end Noticeboard
