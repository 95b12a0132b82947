import Mathlib.Data.List.Induction
import Noticeboard.Proofs.HeadsUp.Changes
import Noticeboard.Proofs.Session.Operations

namespace Noticeboard

namespace Center

inductive Call where
  | handle (now : Nat) (e : Event)
  | expire (e : Expiry)
  /-- The timer has its turn. Its report is not applied by that. -/
  | fire (now : Nat)

namespace Call

def isReset : Call → Bool
  | handle _ .reset => true
  | _ => false

end Call

def fresh (config : Config) (car : Car) : Center :=
  Center.new (Session.new config car)

def update? (c : Center) : Call → Option Update
  | .handle now e => (c.handle now e).result.toOption
  | .expire e => (c.expire e).1
  | .fire _ => none

def next (c : Center) : Call → Center
  | .handle now e => (c.handle now e).center
  | .expire e => (c.expire e).2
  | .fire now => { c with headsUp := (c.headsUp.fire now).2 }

def after (c : Center) (calls : List Call) : Center :=
  calls.foldl next c

def trace (c : Center) : List Call → List (Call × Option Update)
  | [] => []
  | call :: calls => (call, c.update? call) :: (c.next call).trace calls

theorem after_cons (c : Center) (call : Call) (calls : List Call) :
    c.after (call :: calls) = (c.next call).after calls :=
  rfl

theorem after_concat (c : Center) (calls : List Call) (call : Call) :
    c.after (calls ++ [call]) = (c.after calls).next call :=
  List.foldl_concat ..

theorem trace_concat (c : Center) (calls : List Call) (call : Call) :
    c.trace (calls ++ [call]) = c.trace calls ++ [(call, (c.after calls).update? call)] := by
  induction calls generalizing c with
  | nil => rfl
  | cons first calls ih =>
    rw [List.cons_append, trace, ih, trace, after_cons]
    rfl

theorem after_induction {P : Center → Prop} {c : Center} (start : P c)
    (step : ∀ c call, P c → P (c.next call)) (calls : List Call) : P (c.after calls) := by
  induction calls generalizing c with
  | nil => exact start
  | cons call calls ih => exact ih (step c call start)

theorem update?_expire (c : Center) (e : Expiry) :
    c.update? (.expire e) = (c.headsUp.expire e).1.map fun change =>
      { cards := c.session.cards
        edits := {}
        headsUp := some change
        unseenCount := c.session.unseen.size } :=
  rfl

/-- If a call keeps a property just under some condition, then the property holds throughout a run
just if all calls meet the condition. -/
theorem forall_prefix_iff {P : List Call → Prop} {Q : List Call → Call → Prop} (start : P [])
    (step : ∀ earlier call, P earlier → (P (earlier ++ [call]) ↔ Q earlier call))
    (calls : List Call) :
    (∀ earlier, earlier <+: calls → P earlier) ↔
      ∀ earlier call, earlier ++ [call] <+: calls → Q earlier call := by
  constructor
  · intro h earlier call hprefix
    have hearlier : earlier <+: calls := (List.prefix_append earlier [call]).trans hprefix
    exact (step earlier call (h earlier hearlier)).1 (h _ hprefix)
  · intro h earlier
    induction earlier using List.reverseRecOn with
    | nil => exact fun _ => start
    | append_singleton earlier call ih =>
      intro hprefix
      have hearlier : earlier <+: calls := (List.prefix_append earlier [call]).trans hprefix
      exact (step earlier call (ih hearlier)).2 (h earlier call hprefix)

variable (c : Center) (now : Nat)

theorem session_apply_posted (r : Record) (ranking : Option Ranking) :
    (c.apply now (.posted r ranking)).session = (c.session.post r ranking).2 := by
  simp only [apply]
  split
  · split
    · rfl
    · rfl
  · rfl

theorem session_apply_toggleMute (key : String) :
    (c.apply now (.toggleMute key)).session = (c.session.toggleMute key).2 :=
  rfl

def storeAfter (s : Store) : Event → Store
  | .posted r ranking => ranking.elim (s.post r) (s.post r).rank
  | .removed key => s.remove key
  | .rankingUpdated ranking => s.rank ranking
  | .markSeen _ => s
  | .toggleMute _ => s
  | .reset => .empty

theorem store_apply (e : Event) :
    (c.apply now e).session.store = storeAfter c.session.store e := by
  cases e with
  | posted r ranking => rw [session_apply_posted, c.session.store_post, storeAfter]
  | removed key => rfl
  | rankingUpdated ranking => rfl
  | markSeen keys => rfl
  | toggleMute key =>
    rw [session_apply_toggleMute, c.session.toggleMute_snd]
    rfl
  | reset => rfl

theorem cards_apply (e : Event) :
    (c.apply now e).session.cards =
      if (Call.handle now e).isReset then [] else c.session.cards := by
  cases e with
  | posted r ranking =>
    rw [session_apply_posted, Session.cards, c.session.board_post]
    rfl
  | removed key => rfl
  | rankingUpdated ranking => rfl
  | markSeen keys => rfl
  | toggleMute key =>
    rw [session_apply_toggleMute, c.session.toggleMute_snd]
    rfl
  | reset => rfl

theorem apply_posted_of_headsUp {r : Record} {ranking : Option Ranking}
    (h : (c.session.post r ranking).1.headsUp) :
    ∃ stored, (c.session.post r ranking).2.store.get? r.key = some stored ∧
      c.apply now (.posted r ranking) =
        { session := (c.session.post r ranking).2
          change := (c.headsUp.present now stored).1
          headsUp := (c.headsUp.present now stored).2 } := by
  have hcontains := c.session.contains_of_post_headsUp h
  rw [Store.contains_eq_isSome_get?, Option.isSome_iff_exists] at hcontains
  obtain ⟨stored, hget⟩ := hcontains
  have hkey : (c.session.post r ranking).1.key = r.key := rfl
  refine ⟨stored, hget, ?_⟩
  simp only [apply, hkey, hget, h, if_true]

theorem apply_posted_of_not_headsUp {r : Record} {ranking : Option Ranking}
    (h : ¬ (c.session.post r ranking).1.headsUp) :
    c.apply now (.posted r ranking) =
      { session := (c.session.post r ranking).2, headsUp := c.headsUp } := by
  simp only [apply, h]
  split
  · rfl
  · rfl

theorem apply_tells (e : Event) :
    HeadsUp.Tells c.headsUp (c.apply now e).change (c.apply now e).headsUp := by
  cases e with
  | posted r ranking =>
    by_cases h : (c.session.post r ranking).1.headsUp
    · obtain ⟨stored, -, happly⟩ := c.apply_posted_of_headsUp now h
      rw [happly]
      exact HeadsUp.present_tells now stored c.headsUp
    · rw [c.apply_posted_of_not_headsUp now h]
      exact .idle c.headsUp
  | removed key => exact HeadsUp.dismiss_tells key .removed c.headsUp
  | rankingUpdated ranking => exact dismissAll_tells _ .excluded c.headsUp
  | markSeen keys => exact .idle c.headsUp
  | toggleMute key => exact .idle c.headsUp
  | reset => exact HeadsUp.clear_tells c.headsUp

/-- Either the list cannot be made and nothing is published, or the new list is published, with
the edits from the list before and with the change of the heads-up. -/
theorem handle_cases (e : Event) :
    (∃ err, (c.handle now e).result = .error err ∧
      (c.handle now e).center = ⟨(c.apply now e).session, (c.apply now e).headsUp⟩) ∨
    ∃ u s, (c.apply now e).session.refresh = .ok (⟨u.cards, u.edits⟩, s) ∧
      (c.handle now e).result = .ok u ∧ (c.handle now e).center = ⟨s, (c.apply now e).headsUp⟩ ∧
      u.headsUp = (c.apply now e).change := by
  rw [handle]
  cases hrefresh : (c.apply now e).session.refresh with
  | error err => exact .inl ⟨err, rfl, rfl⟩
  | ok refreshed => exact .inr ⟨_, refreshed.2, rfl, rfl, rfl, rfl⟩

theorem headsUp_next_handle (e : Event) :
    (c.next (.handle now e)).headsUp = (c.apply now e).headsUp := by
  obtain ⟨err, -, hcenter⟩ | ⟨u, s, -, -, hcenter, -⟩ := c.handle_cases now e
  · rw [next, hcenter]
  · rw [next, hcenter]

theorem session_next_handle (e : Event) :
    ∃ board, (c.next (.handle now e)).session = { (c.apply now e).session with board := board } := by
  obtain ⟨err, -, hcenter⟩ | ⟨u, s, hrefresh, -, hcenter, -⟩ := c.handle_cases now e
  · exact ⟨_, by rw [next, hcenter]⟩
  · obtain ⟨-, -, hs⟩ := Session.refresh_eq_ok hrefresh
    exact ⟨_, by rw [next, hcenter, hs]⟩

theorem store_next_handle (e : Event) :
    (c.next (.handle now e)).session.store = storeAfter c.session.store e := by
  obtain ⟨board, hsession⟩ := c.session_next_handle now e
  rw [hsession, ← c.store_apply now]

variable {c} in
/-- An update comes from an event, with the new list, or from the report of a timer, with the list
as it is. -/
theorem update?_cases {call : Call} {u : Update} (h : c.update? call = some u) :
    (∃ now e s, call = .handle now e ∧
      (c.apply now e).session.refresh = .ok (⟨u.cards, u.edits⟩, s) ∧
      (c.next call).session = s) ∨
    ∃ e, call = .expire e ∧ u.cards = c.session.cards ∧ u.edits = {} := by
  cases call with
  | handle now e =>
    rw [update?] at h
    obtain ⟨err, hresult, -⟩ | ⟨v, s, hrefresh, hresult, hcenter, -⟩ := c.handle_cases now e
    · rw [hresult] at h
      cases h
    · rw [hresult] at h
      cases h
      exact .inl ⟨now, e, s, rfl, hrefresh, by rw [next, hcenter]⟩
  | expire e =>
    rw [update?_expire, Option.map_eq_some_iff] at h
    obtain ⟨change, -, rfl⟩ := h
    exact .inr ⟨e, rfl, rfl, rfl⟩
  | fire now => cases h

variable {c} in
theorem cards_next_of_update? {call : Call} {u : Update} (h : c.update? call = some u) :
    (c.next call).session.cards = u.cards := by
  obtain ⟨now, e, s, rfl, hrefresh, hsession⟩ | ⟨e, rfl, hcards, -⟩ := update?_cases h
  · obtain ⟨-, -, hs⟩ := Session.refresh_eq_ok hrefresh
    rw [hsession, hs]
    rfl
  · exact hcards.symm

variable {c} in
/-- A list that cannot be made is not remembered: the one before stays, if there was no reset. -/
theorem cards_next_of_silent {call : Call} (h : c.update? call = none) :
    (c.next call).session.cards = if call.isReset then [] else c.session.cards := by
  cases call with
  | handle now e =>
    rw [update?] at h
    obtain ⟨err, -, hcenter⟩ | ⟨v, s, -, hresult, -, -⟩ := c.handle_cases now e
    · rw [next, hcenter]
      exact c.cards_apply now e
    · rw [hresult] at h
      cases h
  | expire e => rfl
  | fire now => rfl

/-- The store is well-formed, and there is no heads-up in a center without heads-ups. -/
structure Sound (c : Center) : Prop where
  store : c.session.store.WellFormed
  enabled : c.headsUp.key?.isSome → c.headsUp.settings.enabled

theorem Sound.new (config : Config) (car : Car) : (fresh config car).Sound where
  store := .empty
  enabled h := by cases h

theorem wellFormed_storeAfter {s : Store} (h : s.WellFormed) (e : Event) :
    (storeAfter s e).WellFormed := by
  cases e with
  | posted r ranking =>
    cases ranking with
    | none => exact h.post r
    | some ranking => exact (h.post r).rank ranking
  | removed key => exact h.remove key
  | rankingUpdated ranking => exact h.rank ranking
  | markSeen keys => exact h
  | toggleMute key => exact h
  | reset => exact .empty

variable {c} in
theorem Sound.next (h : c.Sound) (call : Call) : (c.next call).Sound := by
  cases call with
  | handle now e =>
    refine ⟨?_, ?_⟩
    · rw [store_next_handle]
      exact wellFormed_storeAfter h.store e
    · rw [headsUp_next_handle]
      exact (c.apply_tells now e).isSome_imp_enabled h.enabled
  | expire e => exact ⟨h.store, (c.headsUp.expire_tells e).isSome_imp_enabled h.enabled⟩
  | fire now => exact ⟨h.store, (c.headsUp.fire_tells now).isSome_imp_enabled h.enabled⟩

theorem sound_after (config : Config) (car : Car) (calls : List Call) :
    ((fresh config car).after calls).Sound :=
  after_induction (.new config car) (fun _ call h => h.next call) calls

theorem settings_after (config : Config) (car : Car) (calls : List Call) :
    ((fresh config car).after calls).headsUp.settings = config.headsUp := by
  refine after_induction (P := fun c => c.headsUp.settings = config.headsUp) rfl ?_ calls
  intro c call h
  cases call with
  | handle now e => rw [headsUp_next_handle, (c.apply_tells now e).settings, h]
  | expire e => exact (c.headsUp.expire_tells e).settings.trans h
  | fire now => exact (c.headsUp.fire_tells now).settings.trans h

def newYear : Instant :=
  ⟨1767225600, 0, by decide, by decide, by decide, by decide⟩

def warning : Record where
  id := { key := "a", package := "p", number := 1 }
  category := some .carWarning
  postTime := newYear

def talk : Record :=
  { warning with
    category := none
    style := .messaging
    actions := [{ title := "Reply", purpose := .reply }] }

def alert : Record :=
  { warning with category := some .carEmergency }

def plain (key package : String) (number : Int32) (groupKey : Option String) : Record where
  id := { key := key, package := package, number := number }
  groupKey := groupKey
  postTime := newYear

end Center

end Noticeboard
