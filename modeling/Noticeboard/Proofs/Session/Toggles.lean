import Mathlib.Algebra.Ring.Parity
import Noticeboard.Proofs.Center.Calls
import Noticeboard.Proofs.Session.Runs

namespace Noticeboard

namespace Session

/-- How often a key was muted or unmuted since the last reset, with one more request. -/
def tally (key : String) (n : Nat) : Request × Reply → Nat
  | (.reset, _) => 0
  | (.toggleMute k, .toggled t) => if t.succeeds ∧ k = key then n + 1 else n
  | _ => n

def toggles (key : String) (trace : List (Request × Reply)) : Nat :=
  trace.foldl (tally key) 0

variable {car : Car} {s : Session} {key : String} {r : Record} {n : Nat}

theorem Sound.silences_serve (h : s.Sound car) (hn : s.mutes.silences key ↔ Odd n)
    (q : Request) :
    (s.serve q).2.mutes.silences key ↔ Odd (tally key n (q, (s.serve q).1)) := by
  cases q with
  | post r ranking =>
    change (s.post r ranking).2.mutes.silences key ↔ Odd n
    rw [silences_post]
    exact hn
  | remove k => exact hn
  | rank ranking => exact hn
  | toggleMute k =>
    change (s.toggleMute k).2.mutes.silences key ↔
      Odd (if (s.toggleMute k).1.succeeds ∧ k = key then n + 1 else n)
    rw [silences_toggleMute h.store]
    split
    · rw [Bool.not_eq_true', ← Bool.not_eq_true, hn, Nat.odd_add_one]
    · exact hn
  | isMuted k =>
    change (s.isMuted k).2.mutes.silences key ↔ Odd n
    rw [silences_isMuted]
    exact hn
  | markSeen keys => exact hn
  | refresh =>
    obtain ⟨board, hs⟩ := s.serve_refresh
    rw [hs]
    exact hn
  | reset => exact iff_of_false Bool.false_ne_true Nat.not_odd_zero

theorem Sound.silences_after (h : s.Sound car) (hn : s.mutes.silences key ↔ Odd n)
    (requests : List Request) :
    (s.after requests).mutes.silences key ↔ Odd ((s.trace requests).foldl (tally key) n) := by
  induction requests generalizing s n with
  | nil => exact hn
  | cons q requests ih => exact ih (h.serve q) (h.silences_serve hn q)

/-- A key is muted just if it was toggled an odd number of times since the last reset. -/
theorem silences_iff_odd (config : Config) (car : Car) (requests : List Request) (key : String) :
    ((Session.new config car).after requests).mutes.silences key ↔
      Odd (toggles key ((Session.new config car).trace requests)) :=
  (Sound.new config car).silences_after (iff_of_false Bool.false_ne_true Nat.not_odd_zero) requests

def due (car : Car) (muted : Bool) : Option Record → ToggleResult
  | none => .notStored
  | some r => if car.readsOut r then (if muted then .unmuted else .muted) else .notMessage

theorem Sound.toggleMute_eq (h : s.Sound car) (key : String) :
    (s.toggleMute key).1 = due car (s.mutes.silences key) (s.store.get? key) := by
  rw [toggleMute]
  cases hget : s.store.get? key with
  | none => rfl
  | some r =>
    change (s.mutes.toggle s.car r).1 = _
    rw [Mutes.toggle, h.car_eq, due]
    by_cases hr : car.readsOut r
    · have hown : r.key = key := h.store.own key r hget
      have hknown : s.mutes.knows key := h.known key r hget hr
      rw [Mutes.knows, Option.isSome_iff_exists] at hknown
      obtain ⟨muted, hmuted⟩ := hknown
      have hsilences : s.mutes.silences key = muted := by
        rw [Mutes.silences, hmuted]
        rfl
      rw [if_pos hr, if_pos hr, hown, hmuted, hsilences]
    · rw [if_neg hr, if_neg hr]

theorem Sound.isMuted_eq (h : s.Sound car) (hget : s.store.get? key = some r) :
    (s.isMuted key).1 = s.mutes.silences key := by
  rw [isMuted, hget]
  change (s.mutes.isMuted s.car r).1 = _
  rw [Mutes.isMuted_fst, h.store.own key r hget]

theorem due_unknown_iff (car : Car) (muted : Bool) (stored : Option Record) :
    (due car muted stored).name = "unknown" ↔ stored = none := by
  cases stored with
  | none => exact iff_of_true rfl rfl
  | some r =>
    refine iff_of_false ?_ (Option.some_ne_none r)
    rw [due]
    split
    · cases muted with
      | false => decide
      | true => decide
    · decide

theorem due_eq_notMessage_iff (car : Car) (muted : Bool) (stored : Option Record) :
    due car muted stored = .notMessage ↔ ∃ r, stored = some r ∧ ¬ car.readsOut r := by
  cases stored with
  | none => simp [due]
  | some r =>
    by_cases hr : car.readsOut r
    · cases muted with
      | false => simp [due, hr]
      | true => simp [due, hr]
    · simp [due, hr]

/-- A toggle finds no record just if there is none, and none to read out just if the record is none.
Otherwise toggles mute and unmute in turn, and a record is muted after an odd number of them. -/
theorem toggles_alternate (config : Config) (car : Car) (requests : List Request) (key : String) :
    let s := (Session.new config car).after requests
    let n := toggles key ((Session.new config car).trace requests)
    ((s.toggleMute key).1.name = "unknown" ↔ ¬ s.store.contains key) ∧
    ((s.toggleMute key).1 = .notMessage ↔
      ∃ r, s.store.get? key = some r ∧ ¬ car.readsOut r) ∧
    ∀ r, s.store.get? key = some r → car.readsOut r →
      (s.toggleMute key).1 = (if Odd n then .unmuted else .muted) ∧
      ((s.isMuted key).1 ↔ Odd n) := by
  intro s n
  have hsound : s.Sound car := sound_after config car requests
  have hsilences : s.mutes.silences key ↔ Odd n := silences_iff_odd config car requests key
  rw [hsound.toggleMute_eq]
  refine ⟨?_, due_eq_notMessage_iff car _ _, ?_⟩
  · rw [due_unknown_iff, Store.contains_eq_isSome_get?, Option.not_isSome_iff_eq_none]
  · intro r hget hr
    rw [hget, due, if_pos hr, hsound.isMuted_eq hget]
    exact ⟨if_congr hsilences rfl rfl, hsilences⟩

def mutedTalk : List Request :=
  [.post Center.talk none, .toggleMute "a", .remove "a", .post Center.talk none]

theorem alternate_mutedTalk :
    let s := (Session.new .default .default).after mutedTalk
    s.store.get? "a" = some Center.talk ∧ (s.toggleMute "a").1 = .unmuted ∧ (s.isMuted "a").1 := by
  intro s
  have hget : s.store.get? "a" = some Center.talk := by decide +kernel
  have hodd : Odd (toggles "a" ((Session.new .default .default).trace mutedTalk)) := by
    decide +kernel
  obtain ⟨-, -, halternate⟩ := toggles_alternate .default .default mutedTalk "a"
  obtain ⟨htoggle, hmuted⟩ := halternate Center.talk hget (by decide +kernel)
  exact ⟨hget, htoggle.trans (if_pos hodd), hmuted.2 hodd⟩

end Session

end Noticeboard
