import Noticeboard.Center.Loop
import Noticeboard.Proofs.Center.Responses

namespace Noticeboard

inductive Happening where
  | send (e : Event)
  | report (e : Expiry)
  | move (m : Move)

namespace EventLoop

def happen (l : EventLoop) : Happening → EventLoop × Output
  | .send e => ((l.send? e).getD l, {})
  | .report e => ({ l with expiries := l.expiries ++ [e] }, {})
  | .move m => l.step m

def after (l : EventLoop) (schedule : List Happening) : EventLoop :=
  schedule.foldl (fun l h => (l.happen h).1) l

def observe {α : Type} (see : EventLoop → Happening → List α) (l : EventLoop) :
    List Happening → List α
  | [] => []
  | h :: schedule => see l h ++ (l.happen h).1.observe see schedule

/-- The calls of the center that a happening leads to: one, or none. -/
def made (l : EventLoop) : Happening → List Center.Call
  | .move .takeEvent => if l.running then l.events.head?.toList.map (.handle l.now) else []
  | .move .takeExpiry => if l.running then l.expiries.head?.toList.map .expire else []
  | .move .fire => [.fire l.now]
  | _ => []

def calls (l : EventLoop) (schedule : List Happening) : List Center.Call :=
  l.observe made schedule

def arrivals (l : EventLoop) : Happening → List Event
  | .send e => if (l.send? e).isSome then [e] else []
  | _ => []

def accepted (l : EventLoop) (schedule : List Happening) : List Event :=
  l.observe arrivals schedule

def published (l : EventLoop) (schedule : List Happening) : List Update :=
  l.observe (fun l h => (l.happen h).2.updates) schedule

/-- The events that were handled, each with what came of it. -/
def outcomes (l : EventLoop) (schedule : List Happening) :
    List (Event × Except PackageConflict Update) :=
  l.center.handled (l.calls schedule)

def bulletin (l : EventLoop) : Happening → List Update
  | .move .takeEvent => (l.happen (.move .takeEvent)).2.updates
  | _ => []

def bulletins (l : EventLoop) (schedule : List Happening) : List Update :=
  l.observe bulletin schedule

/-- The loop came to a state by some calls of its center, while some events came in. -/
structure Does (l : EventLoop) (calls : List Center.Call) (arrived : List Event) (l' : EventLoop)
    (updates : List Update) : Prop where
  center : l'.center = l.center.after calls
  /-- Every event that came in is handled or still waits, in the order of arrival. -/
  events : calls.filterMap Center.Call.event? ++ l'.events = l.events ++ arrived
  listening : l'.listening → l.listening
  updates : l'.listening → updates = l.center.published calls

theorem Does.idle (l : EventLoop) : Does l [] [] l [] where
  center := rfl
  events := (List.append_nil l.events).symm
  listening := id
  updates _ := rfl

theorem Does.trans {l l' l'' : EventLoop} {calls calls' : List Center.Call}
    {arrived arrived' : List Event} {updates updates' : List Update}
    (h : Does l calls arrived l' updates) (h' : Does l' calls' arrived' l'' updates') :
    Does l (calls ++ calls') (arrived ++ arrived') l'' (updates ++ updates') where
  center := by rw [Center.after_append, ← h.center, h'.center]
  events := by
    rw [List.filterMap_append, List.append_assoc, h'.events, ← List.append_assoc, h.events,
      List.append_assoc]
  listening hl := h.listening (h'.listening hl)
  updates hl := by
    rw [Center.published_append, ← h.center, h.updates (h'.listening hl), h'.updates hl]

variable (l : EventLoop)

theorem does_call (call : Center.Call) {arrived : List Event} {l' : EventLoop}
    {updates : List Update} (hcenter : l'.center = l.center.next call)
    (hevents : call.event?.toList ++ l'.events = l.events ++ arrived)
    (hlistening : l'.listening → l.listening)
    (hupdates : l'.listening → updates = (l.center.update? call).toList) :
    Does l [call] arrived l' updates := by
  refine ⟨hcenter, ?_, hlistening, ?_⟩
  · rw [← hevents, List.filterMap_cons]
    cases call.event? with
    | none => rfl
    | some e => rfl
  · intro h
    rw [Center.published_singleton, hupdates h]

theorem publish_does (call : Center.Call) {l' : EventLoop} {u : Update} (log : List LogEntry)
    (hcenter : l'.center = l.center.next call)
    (hevents : call.event?.toList ++ l'.events = l.events ++ [])
    (hlistening : l'.listening = l.listening) (hu : l.center.update? call = some u) :
    Does l [call] [] (l'.publish u log).1 (l'.publish u log).2.updates := by
  rw [publish]
  by_cases h : l'.listening
  · rw [if_pos h]
    apply l.does_call call hcenter hevents
    · exact fun _ => hlistening ▸ h
    · intro _
      rw [hu]
      rfl
  · rw [if_neg h]
    refine l.does_call call ?_ ?_ ?_ ?_
    · exact hcenter
    · exact hevents
    · exact fun h' => absurd h' h
    · exact fun h' => absurd h' h

theorem takeEvent_does :
    Does l (l.events.head?.toList.map (.handle l.now)) [] l.takeEvent.1 l.takeEvent.2.updates := by
  rw [takeEvent]
  cases hevents : l.events with
  | nil => exact ⟨rfl, by rw [hevents]; rfl, id, fun _ => rfl⟩
  | cons e events =>
    have htaken : [e] ++ events = l.events ++ [] := by
      rw [hevents, List.append_nil]
      rfl
    have hupdate : l.center.update? (.handle l.now e) =
      (l.center.handle l.now e).result.toOption := rfl
    cases hresult : (l.center.handle l.now e).result with
    | ok u =>
      rw [hresult] at hupdate
      simp only [hresult]
      exact l.publish_does (.handle l.now e) _ rfl htaken rfl hupdate
    | error err =>
      rw [hresult] at hupdate
      simp only [hresult]
      refine l.does_call (.handle l.now e) ?_ ?_ ?_ ?_
      · rfl
      · exact htaken
      · exact id
      · exact fun _ => congrArg Option.toList hupdate.symm

theorem takeExpiry_does :
    Does l (l.expiries.head?.toList.map .expire) [] l.takeExpiry.1 l.takeExpiry.2.updates := by
  rw [takeExpiry]
  cases hexpiries : l.expiries with
  | nil => exact .idle l
  | cons e expiries =>
    have hwaiting : [] ++ l.events = l.events ++ [] := (List.append_nil l.events).symm
    have hupdate : l.center.update? (.expire e) = (l.center.expire e).1 := rfl
    cases hresult : (l.center.expire e).1 with
    | some u =>
      rw [hresult] at hupdate
      simp only [hresult]
      exact l.publish_does (.expire e) _ rfl hwaiting rfl hupdate
    | none =>
      rw [hresult] at hupdate
      simp only [hresult]
      refine l.does_call (.expire e) ?_ ?_ ?_ ?_
      · rfl
      · exact hwaiting
      · exact id
      · exact fun _ => congrArg Option.toList hupdate.symm

theorem happen_does (h : Happening) :
    Does l (l.made h) (l.arrivals h) (l.happen h).1 (l.happen h).2.updates := by
  have hwaiting : [] ++ l.events = l.events ++ [] := (List.append_nil l.events).symm
  cases h with
  | send e =>
    rw [happen, arrivals, send?]
    split
    · exact ⟨rfl, rfl, id, fun _ => rfl⟩
    · exact .idle l
  | report e => exact ⟨rfl, hwaiting, id, fun _ => rfl⟩
  | move m =>
    cases m with
    | takeEvent =>
      rw [happen, step, made]
      split
      · exact l.takeEvent_does
      · exact .idle l
    | takeExpiry =>
      rw [happen, step, made]
      split
      · exact l.takeExpiry_does
      · exact .idle l
    | fire => exact ⟨rfl, hwaiting, id, fun _ => rfl⟩
    | advance ms => exact ⟨rfl, hwaiting, id, fun _ => rfl⟩
    | close => exact ⟨rfl, hwaiting, id, fun _ => rfl⟩
    | stopListening =>
      refine ⟨rfl, hwaiting, ?_, ?_⟩
      · intro h
        cases h
      · intro h
        cases h

theorem bulletin_eq (h : Happening) (hlistening : (l.happen h).1.listening) :
    l.bulletin h = (l.center.handled (l.made h)).filterMap (·.2.toOption) := by
  cases h with
  | send e => rfl
  | report e => rfl
  | move m =>
    cases m with
    | takeEvent =>
      rw [bulletin, (l.happen_does (.move .takeEvent)).updates hlistening, made]
      split
      · cases l.events.head? with
        | none => rfl
        | some e =>
          change l.center.published [.handle l.now e] = _
          rw [Center.published_singleton, Center.update?]
          cases h : (l.center.handle l.now e).result with
          | ok u => simp [Center.handled, h, Except.toOption]
          | error err => simp [Center.handled, h, Except.toOption]
      · rfl
    | takeExpiry =>
      rw [made]
      split
      · cases l.expiries.head? with
        | none => rfl
        | some e => rfl
      · rfl
    | fire => rfl
    | advance ms => rfl
    | close => rfl
    | stopListening => rfl

theorem after_append (schedule more : List Happening) :
    l.after (schedule ++ more) = (l.after schedule).after more :=
  List.foldl_append

theorem schedule_does (schedule : List Happening) :
    Does l (l.calls schedule) (l.accepted schedule) (l.after schedule) (l.published schedule) := by
  induction schedule generalizing l with
  | nil => exact .idle l
  | cons h schedule ih => exact (l.happen_does h).trans (ih (l.happen h).1)

def turn (p : EventLoop × Output) (move : Move) : EventLoop × Output :=
  ((p.1.step move).1, p.2.append (p.1.step move).2)

theorem foldl_turn (p : EventLoop × Output) (moves : List Move) :
    (moves.foldl turn p).1 = p.1.after (moves.map .move) ∧
      (moves.foldl turn p).2.updates = p.2.updates ++ p.1.published (moves.map .move) := by
  induction moves generalizing p with
  | nil => exact ⟨rfl, (List.append_nil _).symm⟩
  | cons move moves ih =>
    obtain ⟨hloop, hupdates⟩ := ih (turn p move)
    exact ⟨hloop, hupdates.trans (List.append_assoc ..)⟩

/-- A run of the loop is a schedule of its own moves. -/
theorem run_eq (moves : List Move) :
    (l.run moves).1 = l.after (moves.map .move) ∧
      (l.run moves).2.updates = l.published (moves.map .move) :=
  foldl_turn (l, {}) moves

theorem events_outcomes (schedule : List Happening) :
    (l.outcomes schedule).map (·.1) ++ (l.after schedule).events =
      l.events ++ l.accepted schedule := by
  rw [outcomes, Center.events_handled]
  exact (l.schedule_does schedule).events

theorem bulletins_eq (schedule : List Happening) (hlistening : (l.after schedule).listening) :
    l.bulletins schedule = (l.outcomes schedule).filterMap (·.2.toOption) := by
  induction schedule generalizing l with
  | nil => rfl
  | cons h schedule ih =>
    have hfirst : (l.happen h).1.listening :=
      ((l.happen h).1.schedule_does schedule).listening hlistening
    change l.bulletin h ++ (l.happen h).1.bulletins schedule =
      (l.center.handled (l.made h ++ (l.happen h).1.calls schedule)).filterMap (·.2.toOption)
    rw [Center.handled_append, List.filterMap_append, ← (l.happen_does h).center,
      l.bulletin_eq h hfirst, ih _ hlistening]
    rfl

def opened (config : Config) (car : Car) (settings : HeadsUpSettings) : EventLoop :=
  .new (.fresh { config with headsUp := settings } car)

variable (config : Config) (car : Car)

theorem outcomes_opened (settings : HeadsUpSettings) (schedule : List Happening) :
    ((opened config car settings).outcomes schedule).map (fun p => (p.1, p.2.map Update.quiet)) =
      (((opened config car settings).outcomes schedule).map (·.1)).zip
        ((Session.new config car).responses
          (((opened config car settings).outcomes schedule).map (·.1))) := by
  have hsession : (opened config car settings).center.session =
      (Session.new config car).under settings := rfl
  rw [outcomes, Center.handled_eq_responses, Center.events_handled, hsession,
    Session.responses_under]

theorem current_opened (settings : HeadsUpSettings) (schedule : List Happening)
    (hlistening : ((opened config car settings).after schedule).listening) :
    ((opened config car settings).after schedule).center.Current
      ((opened config car settings).published schedule).getLast? := by
  have hdoes := (opened config car settings).schedule_does schedule
  rw [hdoes.center, hdoes.updates hlistening]
  exact Center.current_after { config with headsUp := settings } car _

theorem made_cases {h : Happening} (hother : h ≠ .move .takeEvent) :
    l.made h = [] ∨ (∃ e, l.made h = [.expire e]) ∨ l.made h = [.fire l.now] := by
  cases h with
  | send e => exact .inl rfl
  | report e => exact .inl rfl
  | move m =>
    cases m with
    | takeEvent => exact absurd rfl hother
    | takeExpiry =>
      rw [made]
      split
      · cases l.expiries.head? with
        | none => exact .inl rfl
        | some e => exact .inr (.inl ⟨e, rfl⟩)
      · exact .inl rfl
    | fire => exact .inr (.inr rfl)
    | advance ms => exact .inl rfl
    | close => exact .inl rfl
    | stopListening => exact .inl rfl

/-- Whatever happens but that an event is taken, the session stays as it is, and what is published,
if anything, is the list of the last update once more. -/
theorem happen_repeats {last : Option Update} (hcurrent : l.center.Current last) {h : Happening}
    (hother : h ≠ .move .takeEvent) (hlistening : (l.happen h).1.listening) :
    (l.happen h).1.center.session = l.center.session ∧
      (l.happen h).2.updates.length ≤ 1 ∧
      ∀ u ∈ (l.happen h).2.updates, Center.Repeats last u := by
  have hdoes := l.happen_does h
  rw [hdoes.center, hdoes.updates hlistening]
  obtain hmade | ⟨e, hmade⟩ | hmade := l.made_cases hother
  · rw [hmade]
    exact ⟨rfl, Nat.zero_le 1, List.forall_mem_nil _⟩
  · rw [hmade, Center.published_singleton]
    refine ⟨rfl, Option.length_toList_le, ?_⟩
    intro u hu
    rw [Option.mem_toList] at hu
    exact hcurrent.expire hu
  · rw [hmade]
    exact ⟨rfl, Nat.zero_le 1, List.forall_mem_nil _⟩

theorem quiet_filterMap (outcomes : List (Event × Except PackageConflict Update)) :
    (outcomes.filterMap (·.2.toOption)).map Update.quiet =
      (outcomes.map (fun p => p.2.map Update.quiet)).filterMap Except.toOption := by
  rw [List.map_filterMap, List.filterMap_map]
  congr 1
  funext p
  obtain ⟨e, result⟩ := p
  cases result with
  | ok u => rfl
  | error err => rfl

/-- Of two schedules that handle the same events both get the same from each, but for the changes
of the heads-up, whatever their settings for heads-ups. What is published for the events is what
comes of those that do not fail, in the order in which they came in. Whatever else happens leaves
the session as it is and publishes one update at most, which repeats the list of the last one. -/
theorem schedules_agree (config : Config) (car : Car) (a b : HeadsUpSettings)
    (s t : List Happening) (hs : ((opened config car a).after s).listening)
    (ht : ((opened config car b).after t).listening)
    (hsame : ((opened config car a).outcomes s).map (·.1) =
      ((opened config car b).outcomes t).map (·.1)) :
    ((opened config car a).outcomes s).map (fun p => p.2.map Update.quiet) =
        ((opened config car b).outcomes t).map (fun p => p.2.map Update.quiet) ∧
      ((opened config car a).bulletins s).map Update.quiet =
        ((opened config car b).bulletins t).map Update.quiet ∧
      (opened config car a).bulletins s =
        ((opened config car a).outcomes s).filterMap (·.2.toOption) ∧
      ((opened config car a).outcomes s).map (·.1) ++ ((opened config car a).after s).events =
        (opened config car a).accepted s ∧
      ∀ earlier h, earlier ++ [h] <+: s → h ≠ .move .takeEvent →
        (((opened config car a).after earlier).happen h).1.center.session =
            ((opened config car a).after earlier).center.session ∧
          (((opened config car a).after earlier).happen h).2.updates.length ≤ 1 ∧
          ∀ u ∈ (((opened config car a).after earlier).happen h).2.updates,
            Center.Repeats ((opened config car a).published earlier).getLast? u := by
  -- Both are what the session alone makes of the events, and it does not read those settings.
  have houtcomes : ((opened config car a).outcomes s).map (fun p => (p.1, p.2.map Update.quiet)) =
      ((opened config car b).outcomes t).map (fun p => (p.1, p.2.map Update.quiet)) := by
    rw [outcomes_opened, outcomes_opened, hsame]
  have hresults : ((opened config car a).outcomes s).map (fun p => p.2.map Update.quiet) =
      ((opened config car b).outcomes t).map (fun p => p.2.map Update.quiet) := by
    have hsnd := congrArg (List.map Prod.snd) houtcomes
    rw [List.map_map, List.map_map] at hsnd
    exact hsnd
  refine ⟨hresults, ?_, bulletins_eq _ s hs, events_outcomes _ s, ?_⟩
  · rw [bulletins_eq _ s hs, bulletins_eq _ t ht, quiet_filterMap, quiet_filterMap, hresults]
  · rintro earlier h ⟨rest, rfl⟩ hother
    have hafter : (opened config car a).after (earlier ++ [h]) =
        (((opened config car a).after earlier).happen h).1 := after_append ..
    rw [after_append, hafter] at hs
    have hlistening := (schedule_does _ rest).listening hs
    have hbefore := (happen_does _ h).listening hlistening
    exact happen_repeats _ (current_opened config car a earlier hbefore) hother hlistening

/-- The third event fails: its record gets into the group of the second one, from another
package. -/
def threePosts : List Event :=
  [.posted Center.warning none, .posted (Center.plain "b" "z" 2 (some "x|y")) none,
    .posted (Center.plain "c" "y|z" 3 (some "x")) none]

def slowly : List Happening :=
  (threePosts.take 1).map .send ++ [.move .takeEvent, .move (.advance 8000), .move .fire] ++
    (threePosts.drop 1).map .send ++
      [.move .takeEvent, .move .takeExpiry, .move .takeEvent]

def atOnce : List Happening :=
  threePosts.map .send ++ List.replicate 3 (.move .takeEvent)

theorem agree_slowly_atOnce :
    ((opened .default .default {}).published slowly).length = 3 ∧
      ((opened .default .default { enabled := false }).published atOnce).length = 2 ∧
      ((opened .default .default {}).bulletins slowly).map Update.quiet =
        ((opened .default .default { enabled := false }).bulletins atOnce).map Update.quiet := by
  have hslowly : ((opened .default .default {}).after slowly).listening := by decide +kernel
  have hatOnce : ((opened .default .default { enabled := false }).after atOnce).listening := by
    decide +kernel
  obtain ⟨-, hbulletins, -⟩ :=
    schedules_agree .default .default {} { enabled := false } slowly atOnce hslowly hatOnce rfl
  exact ⟨by decide +kernel, by decide +kernel, hbulletins⟩

end EventLoop

end Noticeboard
