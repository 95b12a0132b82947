import Noticeboard.Proofs.Center.Responses
import Noticeboard.Proofs.Session.Toggles

namespace Noticeboard

namespace Center

variable (c : Center)

/-- The post of a record brings it into the place. -/
def Admits (now : Nat) (r : Record) (ranking : Option Ranking) : Prop :=
  (c.next (.handle now (.posted r ranking))).headsUp.record = some r ∧
    (c.next (.handle now (.posted r ranking))).headsUp.generation ≠ c.headsUp.generation

/-- The record is there after its post and deserves to pop up, and records do pop up. -/
def Eligible (config : Config) (now : Nat) (r : Record) (ranking : Option Ranking) : Prop :=
  config.headsUp.enabled ∧ (∀ listed, ranking = some listed → listed.contains r.key) ∧
    r.deservesHeadsUp (c.next (.handle now (.posted r ranking))).session.store.ranking

/-- How often a key was muted or unmuted since the last reset. -/
def toggles (key : String) (calls : List Call) : Nat :=
  Session.toggles key (c.session.trace (calls.flatMap Call.requests))

variable {c}

theorem Sound.admits_iff_headsUp (h : c.Sound) (now : Nat) (r : Record)
    (ranking : Option Ranking) :
    c.Admits now r ranking ↔
      c.headsUp.settings.enabled ∧ (c.session.post r ranking).1.headsUp := by
  rw [Admits, headsUp_next_handle]
  by_cases hup : (c.session.post r ranking).1.headsUp
  · obtain ⟨stored, hget, happly⟩ := c.apply_posted_of_headsUp now hup
    rw [Session.store_post_eq_posted, Session.get?_posted h.store] at hget
    obtain ⟨-, rfl⟩ := hget
    rw [happly, and_iff_left hup]
    by_cases henabled : c.headsUp.settings.enabled
    · rw [HeadsUp.present_of_enabled henabled]
      exact iff_of_true ⟨rfl, Nat.succ_ne_self _⟩ henabled
    · rw [HeadsUp.present_of_disabled henabled]
      exact iff_of_false (fun hsame => hsame.2 rfl) henabled
  · rw [c.apply_posted_of_not_headsUp now hup]
    exact iff_of_false (fun hsame => hsame.2 rfl) fun hboth => hup hboth.2

/-- A posted record comes into the place just if it is eligible and its key was not muted, that is,
not toggled an odd number of times since the last reset. -/
theorem admits_iff (config : Config) (car : Car) (calls : List Call) (now : Nat) (r : Record)
    (ranking : Option Ranking) :
    ((fresh config car).after calls).Admits now r ranking ↔
      ((fresh config car).after calls).Eligible config now r ranking ∧
        ¬ Odd ((fresh config car).toggles r.key calls) := by
  have hsound := sound_after config car calls
  have hmuted : ((fresh config car).after calls).session.mutes.silences r.key ↔
      Odd ((fresh config car).toggles r.key calls) := by
    rw [session_after]
    exact Session.silences_iff_odd config car _ r.key
  have hstore := ((fresh config car).after calls).store_next_handle now (.posted r ranking)
  rw [storeAfter, ← Session.store_post] at hstore
  rw [hsound.admits_iff_headsUp, settings_after, Session.post_headsUp_iff hsound.store, hmuted,
    Eligible, hstore]
  simp only [and_assoc]

def mutedRun : List Call :=
  [.handle 0 (.posted talk none), .handle 0 (.toggleMute "a")]

theorem not_admits_alert :
    ¬ (((fresh .default .default).after mutedRun).Admits 0 alert none ↔
      ((fresh .default .default).after mutedRun).Eligible .default 0 alert none ∧
        ¬ (Car.default.readsOut alert ∧
          Odd ((fresh .default .default).toggles alert.key mutedRun))) := by
  have heligible : ((fresh .default .default).after mutedRun).Eligible .default 0 alert none :=
    ⟨rfl, nofun, by decide +kernel⟩
  have hmute : Car.default.readsOut alert = false := by decide +kernel
  have habsent : (((fresh .default .default).after mutedRun).next
      (.handle 0 (.posted alert none))).headsUp.record = none := by decide +kernel
  intro h
  obtain ⟨hrecord, -⟩ := h.2 ⟨heligible, fun hboth => Bool.false_ne_true (hmute ▸ hboth.1)⟩
  rw [habsent] at hrecord
  cases hrecord

end Center

end Noticeboard
