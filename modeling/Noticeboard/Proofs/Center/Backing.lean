import Noticeboard.Proofs.Center.Calls

namespace Noticeboard

namespace Center

def Backed (c : Center) : Prop :=
  ∀ key, c.headsUp.key? = some key → c.session.store.contains key

/-- A post that comes with a ranking spares the visible record, or puts its own in the place. -/
def Spares (c : Center) : Call → Prop
  | .handle _ (.posted r (some ranking)) => ∀ key, c.headsUp.key? = some key →
      ranking.contains key ∨ (c.session.post r (some ranking)).1.headsUp
  | _ => True

variable {c : Center}

theorem Sound.backed_of_headsUp (h : c.Sound) (now : Nat) {r : Record} {ranking : Option Ranking}
    (hup : (c.session.post r ranking).1.headsUp) :
    (c.next (.handle now (.posted r ranking))).Backed := by
  obtain ⟨stored, hget, happly⟩ := c.apply_posted_of_headsUp now hup
  have hstore := c.store_apply now (.posted r ranking)
  rw [session_apply_posted] at hstore
  intro key hkey
  rw [store_next_handle]
  rw [headsUp_next_handle, happly, HeadsUp.key?_present] at hkey
  split at hkey
  · have hown := (wellFormed_storeAfter h.store (.posted r ranking)).own r.key stored
    rw [← hstore] at hown ⊢
    rw [← Option.some.inj hkey, hown hget, Store.contains_eq_isSome_get?, hget]
    rfl
  · rename_i henabled
    exact absurd (h.enabled (by rw [hkey]; rfl)) henabled

theorem Sound.backed_iff_of_not_headsUp (h : c.Sound) (hbacked : c.Backed) (now : Nat) {r : Record}
    {ranking : Ranking} (hup : ¬ (c.session.post r (some ranking)).1.headsUp) :
    (c.next (.handle now (.posted r (some ranking)))).Backed ↔
      ∀ key, c.headsUp.key? = some key → ranking.contains key := by
  have hcontains : ∀ key, c.headsUp.key? = some key →
      ((c.next (.handle now (.posted r (some ranking)))).session.store.contains key ↔
        ranking.contains key) := by
    intro key hkey
    rw [store_next_handle, storeAfter, Option.elim_some, (h.store.post r).contains_rank,
      Store.contains_post]
    exact and_iff_left (.inr (hbacked key hkey))
  have hsame : (c.next (.handle now (.posted r (some ranking)))).headsUp = c.headsUp := by
    rw [headsUp_next_handle, c.apply_posted_of_not_headsUp now hup]
  rw [Backed, hsame]
  exact forall_congr' fun key => imp_congr_right (hcontains key)

theorem Sound.backed_posted_iff (h : c.Sound) (hbacked : c.Backed) (now : Nat) (r : Record)
    (ranking : Ranking) :
    (c.next (.handle now (.posted r (some ranking)))).Backed ↔
      c.Spares (.handle now (.posted r (some ranking))) := by
  by_cases hup : (c.session.post r (some ranking)).1.headsUp
  · exact iff_of_true (h.backed_of_headsUp now hup) fun _ _ => .inr hup
  · rw [h.backed_iff_of_not_headsUp hbacked now hup]
    exact forall_congr' fun key => imp_congr_right fun _ => (or_iff_left hup).symm

theorem Sound.backed_posted_none (h : c.Sound) (hbacked : c.Backed) (now : Nat) (r : Record) :
    (c.next (.handle now (.posted r none))).Backed := by
  by_cases hup : (c.session.post r none).1.headsUp
  · exact h.backed_of_headsUp now hup
  · intro key hkey
    rw [headsUp_next_handle, c.apply_posted_of_not_headsUp now hup] at hkey
    rw [store_next_handle, storeAfter, Option.elim_none, Store.contains_post]
    exact .inr (hbacked key hkey)

theorem Backed.removed (hbacked : c.Backed) (now : Nat) (key : String) :
    (c.next (.handle now (.removed key))).Backed := by
  intro k hk
  rw [headsUp_next_handle] at hk
  obtain ⟨hvisible, hne⟩ := HeadsUp.key?_dismiss hk
  rw [store_next_handle, storeAfter, Store.contains_remove]
  exact ⟨Ne.symm hne, hbacked k hvisible⟩

theorem Sound.backed_rankingUpdated (h : c.Sound) (hbacked : c.Backed) (now : Nat)
    (ranking : Ranking) : (c.next (.handle now (.rankingUpdated ranking))).Backed := by
  intro key hkey
  rw [headsUp_next_handle] at hkey
  obtain ⟨hvisible, hnot⟩ := key?_dismissAll hkey
  have hstored := hbacked key hvisible
  rw [h.store.map_key_unlisted, h.store.mem_unlistedKeys] at hnot
  rw [store_next_handle, storeAfter, h.store.contains_rank]
  exact ⟨by_contra fun hlisted => hnot ⟨hstored, hlisted⟩, hstored⟩

theorem Sound.next_backed_iff (h : c.Sound) (hbacked : c.Backed) (call : Call) :
    (c.next call).Backed ↔ c.Spares call := by
  cases call with
  | handle now e =>
    cases e with
    | posted r ranking =>
      cases ranking with
      | none => exact iff_of_true (h.backed_posted_none hbacked now r) trivial
      | some ranking => exact h.backed_posted_iff hbacked now r ranking
    | removed key => exact iff_of_true (hbacked.removed now key) trivial
    | rankingUpdated ranking =>
      exact iff_of_true (h.backed_rankingUpdated hbacked now ranking) trivial
    | markSeen keys =>
      refine iff_of_true ?_ trivial
      intro key hkey
      rw [headsUp_next_handle] at hkey
      rw [store_next_handle]
      exact hbacked key hkey
    | toggleMute k =>
      refine iff_of_true ?_ trivial
      intro key hkey
      rw [headsUp_next_handle] at hkey
      rw [store_next_handle]
      exact hbacked key hkey
    | reset =>
      refine iff_of_true ?_ trivial
      intro key hkey
      rw [headsUp_next_handle] at hkey
      cases hkey
  | expire e => exact iff_of_true (fun key hkey => hbacked key (HeadsUp.key?_expire hkey)) trivial
  | fire now =>
    refine iff_of_true ?_ trivial
    intro key hkey
    have hsame : (c.next (.fire now)).headsUp.key? = c.headsUp.key? :=
      (c.headsUp.fire_tells now).visible
    exact hbacked key (hsame ▸ hkey)

/-- The visible record is in the store throughout a run just if every post that comes with a
ranking spares it. -/
theorem backed_throughout_iff (config : Config) (car : Car) (calls : List Call) :
    (∀ earlier, earlier <+: calls → ((fresh config car).after earlier).Backed) ↔
    ∀ earlier now r ranking, earlier ++ [.handle now (.posted r (some ranking))] <+: calls →
      ∀ key, ((fresh config car).after earlier).headsUp.key? = some key →
        ranking.contains key ∨
          (((fresh config car).after earlier).session.post r (some ranking)).1.headsUp := by
  have start : ((fresh config car).after []).Backed := by
    intro key hkey
    cases hkey
  have step : ∀ earlier call, ((fresh config car).after earlier).Backed →
      (((fresh config car).after (earlier ++ [call])).Backed ↔
        ((fresh config car).after earlier).Spares call) := by
    intro earlier call hbacked
    rw [after_concat]
    exact (sound_after config car earlier).next_backed_iff hbacked call
  rw [forall_prefix_iff (P := fun earlier => ((fresh config car).after earlier).Backed) start step]
  constructor
  · intro h earlier now r ranking hprefix
    exact h earlier _ hprefix
  · intro h earlier call hprefix
    cases call with
    | handle now e =>
      cases e with
      | posted r ranking =>
        cases ranking with
        | none => trivial
        | some ranking => exact h earlier now r ranking hprefix
      | _ => trivial
    | expire e => trivial
    | fire now => trivial

/-- A warning pops up, then another record comes with a ranking that lists no other. -/
def droppingRun : List Call :=
  [.handle 0 (.posted warning none),
    .handle 0 (.posted (plain "b" "p" 2 none) (some (.ofList [("b", ⟨.default, 0⟩)])))]

theorem not_backed_droppingRun :
    ¬ ((fresh .default .default).after droppingRun).Backed := by
  have hvisible : ((fresh .default .default).after droppingRun).headsUp.key? = some "a" := by
    decide +kernel
  have hgone :
      ((fresh .default .default).after droppingRun).session.store.contains "a" = false := by
    decide +kernel
  intro h
  rw [h "a" hvisible] at hgone
  cases hgone

end Center

end Noticeboard
