import Noticeboard.Proofs.Board.Children
import Noticeboard.Proofs.Center.Reports
import Noticeboard.Proofs.Session.Runs

namespace Noticeboard

def Update.quiet (u : Update) : Update :=
  { u with headsUp := none }

/-- What an event asks of a session before the list is made anew. -/
def Event.request : Event → Session.Request
  | .posted r ranking => .post r ranking
  | .removed key => .remove key
  | .rankingUpdated ranking => .rank ranking
  | .markSeen keys => .markSeen keys
  | .toggleMute key => .toggleMute key
  | .reset => .reset

namespace Session

def hear (s : Session) : Event → Option ToggleResult × Session
  | .posted r ranking => (none, (s.post r ranking).2)
  | .removed key => (none, (s.remove key).2)
  | .rankingUpdated ranking => (none, (s.rank ranking).2)
  | .markSeen keys => (none, s.markSeen keys)
  | .toggleMute key => (some (s.toggleMute key).1, (s.toggleMute key).2)
  | .reset => (none, s.reset)

def respond (s : Session) (e : Event) : Except PackageConflict Update × Session :=
  match (s.hear e).2.refresh with
  | .error err => (.error err, (s.hear e).2)
  | .ok (list, s') =>
    (.ok { cards := list.cards, edits := list.edits, mute := (s.hear e).1,
           unseenCount := s'.unseen.size }, s')

def responses (s : Session) : List Event → List (Except PackageConflict Update)
  | [] => []
  | e :: events => (s.respond e).1 :: (s.respond e).2.responses events

theorem hear_snd (s : Session) (e : Event) : (s.hear e).2 = (s.serve e.request).2 := by
  cases e with
  | posted r ranking => rfl
  | removed key => rfl
  | rankingUpdated ranking => rfl
  | markSeen keys => rfl
  | toggleMute key => rfl
  | reset => rfl

theorem respond_snd (s : Session) (e : Event) :
    (s.respond e).2 = s.after [e.request, .refresh] := by
  change _ = ((s.serve e.request).2.serve .refresh).2
  rw [respond, ← hear_snd, serve]
  cases (s.hear e).2.refresh with
  | error err => rfl
  | ok refreshed => rfl

end Session

namespace Center

variable (c : Center) (now : Nat) (e : Event)

theorem session_apply : (c.apply now e).session = (c.session.hear e).2 := by
  cases e with
  | posted r ranking => exact c.session_apply_posted now r ranking
  | removed key => rfl
  | rankingUpdated ranking => rfl
  | markSeen keys => rfl
  | toggleMute key => rfl
  | reset => rfl

theorem mute_apply : (c.apply now e).mute = (c.session.hear e).1 := by
  cases e with
  | posted r ranking =>
    by_cases h : (c.session.post r ranking).1.headsUp
    · obtain ⟨stored, -, happly⟩ := c.apply_posted_of_headsUp now h
      rw [happly]
      rfl
    · rw [c.apply_posted_of_not_headsUp now h]
      rfl
  | removed key => rfl
  | rankingUpdated ranking => rfl
  | markSeen keys => rfl
  | toggleMute key => rfl
  | reset => rfl

theorem respond_session :
    c.session.respond e =
      ((c.handle now e).result.map Update.quiet, (c.handle now e).center.session) := by
  rw [Session.respond, handle, ← c.session_apply now, ← c.mute_apply now]
  cases (c.apply now e).session.refresh with
  | error err => rfl
  | ok refreshed => rfl

/-- What a call asks of the session. A timer asks nothing. -/
def Call.requests : Call → List Session.Request
  | .handle _ e => [e.request, .refresh]
  | .expire _ => []
  | .fire _ => []

theorem session_next (c : Center) (call : Call) :
    (c.next call).session = c.session.after call.requests := by
  cases call with
  | handle now e =>
    rw [Call.requests, ← Session.respond_snd, c.respond_session now e]
    rfl
  | expire e => rfl
  | fire now => rfl

theorem session_after (c : Center) (calls : List Call) :
    (c.after calls).session = c.session.after (calls.flatMap Call.requests) := by
  induction calls generalizing c with
  | nil => rfl
  | cons call calls ih =>
    rw [after_cons, ih, session_next, List.flatMap_cons, Session.after, Session.after,
      Session.after, List.foldl_append]

end Center

namespace Session

def under (settings : HeadsUpSettings) (s : Session) : Session :=
  { s with board := { s.board with config := { s.board.config with headsUp := settings } } }

variable (settings : HeadsUpSettings) (s : Session)

theorem isMuted_under (key : String) :
    (s.under settings).isMuted key = ((s.isMuted key).1, (s.isMuted key).2.under settings) := by
  rw [isMuted, isMuted, show (s.under settings).store = s.store from rfl]
  cases s.store.get? key with
  | none => rfl
  | some r => rfl

theorem popsUp_under (key : String) :
    (s.under settings).popsUp key = ((s.popsUp key).1, (s.popsUp key).2.under settings) := by
  rw [popsUp, popsUp, show (s.under settings).store = s.store from rfl]
  cases s.store.get? key with
  | none => rfl
  | some r =>
    by_cases hr : r.deservesHeadsUp s.store.ranking
    · simp only [hr, if_true, isMuted_under]
    · simp only [hr]
      rfl

theorem posted_under (r : Record) (ranking : Option Ranking) :
    (s.under settings).posted r ranking = (s.posted r ranking).under settings := by
  cases ranking with
  | none => rfl
  | some ranking => rfl

theorem hear_under (e : Event) :
    (s.under settings).hear e = ((s.hear e).1, (s.hear e).2.under settings) := by
  cases e with
  | posted r ranking =>
    change (none, ((s.under settings).post r ranking).2) = (none, (s.post r ranking).2.under settings)
    rw [post_eq, post_eq, posted_under, popsUp_under]
  | removed key => rfl
  | rankingUpdated ranking => rfl
  | markSeen keys => rfl
  | toggleMute key =>
    rw [hear, hear, toggleMute, toggleMute, show (s.under settings).store = s.store from rfl]
    cases s.store.get? key with
    | none => rfl
    | some r => rfl
  | reset => rfl

theorem refresh_under :
    (s.under settings).refresh = s.refresh.map fun p => (p.1, p.2.under settings) := by
  rw [refresh, refresh, Board.refresh, Board.refresh]
  change (arrange s.board.config s.store.ranking s.store.toList >>= _) >>= _ = _
  cases arrange s.board.config s.store.ranking s.store.toList with
  | error err => rfl
  | ok cards => rfl

theorem respond_under (e : Event) :
    (s.under settings).respond e = ((s.respond e).1, (s.respond e).2.under settings) := by
  rw [respond, respond, hear_under, refresh_under]
  cases (s.hear e).2.refresh with
  | error err => rfl
  | ok refreshed => rfl

theorem responses_under (events : List Event) :
    (s.under settings).responses events = s.responses events := by
  induction events generalizing s with
  | nil => rfl
  | cons e events ih => rw [responses, responses, respond_under, ih]

variable {s}

theorem refresh_of_subsingleton (h : ∀ a ∈ s.store.toList, ∀ b ∈ s.store.toList, a = b) :
    ∃ refreshed, s.refresh = .ok refreshed := by
  obtain ⟨cards, harrange⟩ := arrange_ok_of_subsingleton s.board.config s.store.ranking h
  rw [refresh, Board.refresh, harrange]
  exact ⟨_, rfl⟩

theorem refresh_reset_ok (s : Session) : ∃ refreshed, s.reset.refresh = .ok refreshed :=
  refresh_of_subsingleton (List.forall_mem_nil _)

end Session

namespace Center

def Call.event? : Call → Option Event
  | .handle _ e => some e
  | .expire _ => none
  | .fire _ => none

def handled (c : Center) : List Call → List (Event × Except PackageConflict Update)
  | [] => []
  | .handle now e :: calls => (e, (c.handle now e).result) :: (c.next (.handle now e)).handled calls
  | .expire e :: calls => (c.next (.expire e)).handled calls
  | .fire now :: calls => (c.next (.fire now)).handled calls

theorem events_handled (c : Center) (calls : List Call) :
    (c.handled calls).map (·.1) = calls.filterMap Call.event? := by
  induction calls generalizing c with
  | nil => rfl
  | cons call calls ih =>
    cases call with
    | handle now e => exact congrArg _ (ih (c.next (.handle now e)))
    | expire e => exact ih (c.next (.expire e))
    | fire now => exact ih (c.next (.fire now))

/-- What comes of the events of a run, but for the changes of the heads-up, depends on the session
that they find and on nothing else. -/
theorem handled_eq_responses (c : Center) (calls : List Call) :
    (c.handled calls).map (fun p => (p.1, p.2.map Update.quiet)) =
      (calls.filterMap Call.event?).zip (c.session.responses (calls.filterMap Call.event?)) := by
  induction calls generalizing c with
  | nil => rfl
  | cons call calls ih =>
    cases call with
    | handle now e =>
      have hevents : (Call.handle now e :: calls).filterMap Call.event? =
          e :: calls.filterMap Call.event? := rfl
      rw [handled, List.map_cons, ih, hevents, Session.responses, c.respond_session now e,
        List.zip_cons_cons]
      rfl
    | expire e => exact ih (c.next (.expire e))
    | fire now => exact ih (c.next (.fire now))

theorem after_append (c : Center) (calls more : List Call) :
    c.after (calls ++ more) = (c.after calls).after more :=
  List.foldl_append

theorem handled_append (c : Center) (calls more : List Call) :
    c.handled (calls ++ more) = c.handled calls ++ (c.after calls).handled more := by
  induction calls generalizing c with
  | nil => rfl
  | cons call calls ih =>
    cases call with
    | handle now e => exact congrArg _ (ih (c.next (.handle now e)))
    | expire e => exact ih (c.next (.expire e))
    | fire now => exact ih (c.next (.fire now))

theorem published_cons (c : Center) (call : Call) (calls : List Call) :
    c.published (call :: calls) = (c.update? call).toList ++ (c.next call).published calls := by
  rw [published, trace, List.filterMap_cons]
  cases c.update? call with
  | none => rfl
  | some u => rfl

theorem published_append (c : Center) (calls more : List Call) :
    c.published (calls ++ more) = c.published calls ++ (c.after calls).published more := by
  induction calls generalizing c with
  | nil => rfl
  | cons call calls ih =>
    rw [List.cons_append, published_cons, ih, published_cons, List.append_assoc, after_cons]

theorem published_singleton (c : Center) (call : Call) :
    c.published [call] = (c.update? call).toList :=
  c.published_concat [] call

/-- An update shows the list of the last one once more. -/
def Repeats (last : Option Update) (u : Update) : Prop :=
  u.edits = {} ∧ ∃ previous, last = some previous ∧ u.cards = previous.cards

/-- The center remembers the list of the last update. Before the first one it has nothing. -/
structure Current (c : Center) (last : Option Update) : Prop where
  cards : ∀ u, last = some u → u.cards = c.session.cards
  first : last = none → c.session.store = .empty ∧ c.headsUp.key? = none

theorem Current.fresh (config : Config) (car : Car) : (fresh config car).Current none where
  cards u hu := by cases hu
  first _ := ⟨rfl, rfl⟩

variable {c : Center} {last : Option Update}

theorem Current.of_cards {u : Update} (h : u.cards = c.session.cards) : c.Current (some u) where
  cards u' hu' := by
    cases hu'
    exact h
  first hnone := by cases hnone

theorem get?_storeAfter_empty {e : Event} {key : String} {x : Record}
    (hget : (storeAfter .empty e).get? key = some x) : ∃ r ranking, e = .posted r ranking ∧ x = r := by
  cases e with
  | posted r ranking =>
    have hpost : (Store.empty.post r).get? key = some x := by
      cases ranking with
      | none => exact hget
      | some ranking =>
        rw [storeAfter, Option.elim_some, (Store.WellFormed.empty.post r).get?_rank,
          Option.ite_none_right_eq_some] at hget
        exact hget.2
    rw [Store.get?_post, Store.get?_empty, Option.ite_none_right_eq_some] at hpost
    exact ⟨r, ranking, rfl, (Option.some.inj hpost.2).symm⟩
  | removed k =>
    rw [storeAfter, Store.get?_remove, Store.get?_empty, ite_self] at hget
    cases hget
  | rankingUpdated ranking =>
    rw [storeAfter, Store.WellFormed.empty.get?_rank, Store.get?_empty, ite_self] at hget
    cases hget
  | markSeen keys =>
    rw [storeAfter, Store.get?_empty] at hget
    cases hget
  | toggleMute k =>
    rw [storeAfter, Store.get?_empty] at hget
    cases hget
  | reset =>
    rw [storeAfter, Store.get?_empty] at hget
    cases hget

/-- The first event always leads to a list, as there is one record at most. -/
theorem update?_of_empty (hstore : c.session.store = .empty) (now : Nat) (e : Event) :
    ∃ u, c.update? (.handle now e) = some u := by
  have hone : ∀ a ∈ (c.apply now e).session.store.toList,
      ∀ b ∈ (c.apply now e).session.store.toList, a = b := by
    rw [store_apply, hstore]
    intro a ha b hb
    obtain ⟨k, -, hk⟩ := List.mem_filterMap.1 ha
    obtain ⟨k', -, hk'⟩ := List.mem_filterMap.1 hb
    obtain ⟨r, ranking, rfl, rfl⟩ := get?_storeAfter_empty hk
    obtain ⟨r', ranking', he, rfl⟩ := get?_storeAfter_empty hk'
    cases he
    rfl
  obtain ⟨refreshed, hrefresh⟩ := Session.refresh_of_subsingleton hone
  rw [update?, handle, hrefresh]
  exact ⟨_, rfl⟩

theorem not_isReset_of_silent {call : Call} (h : c.update? call = none) : ¬ call.isReset := by
  intro hreset
  cases call with
  | handle now e =>
    cases e with
    | reset =>
      obtain ⟨refreshed, hrefresh⟩ := c.session.refresh_reset_ok
      rw [update?, handle, show (c.apply now .reset).session = c.session.reset from rfl,
        hrefresh] at h
      cases h
    | _ => cases hreset
  | expire e => cases hreset
  | fire now => cases hreset

theorem Current.next (h : c.Current last) (call : Call) :
    (c.next call).Current ((c.update? call).or last) := by
  cases hupdate : c.update? call with
  | some u => exact .of_cards (cards_next_of_update? hupdate).symm
  | none =>
    have hcards := cards_next_of_silent hupdate
    rw [if_neg (not_isReset_of_silent hupdate)] at hcards
    refine ⟨fun u hu => (h.cards u hu).trans hcards.symm, ?_⟩
    intro hnone
    obtain ⟨hstore, hkey⟩ := h.first hnone
    cases call with
    | handle now e =>
      -- Before the first update the store is empty, so that this event could not have failed.
      obtain ⟨u, hsome⟩ := update?_of_empty hstore now e
      rw [hsome] at hupdate
      cases hupdate
    | expire e =>
      rw [update?_expire, Option.map_eq_none_iff] at hupdate
      have hvisible := (c.headsUp.expire_tells e).visible
      rw [hupdate] at hvisible
      exact ⟨hstore, hvisible.trans hkey⟩
    | fire now => exact ⟨hstore, (c.headsUp.fire_tells now).visible.trans hkey⟩

theorem current_after (config : Config) (car : Car) (calls : List Call) :
    ((Center.fresh config car).after calls).Current
      ((Center.fresh config car).published calls).getLast? := by
  induction calls using List.reverseRecOn with
  | nil => exact .fresh config car
  | append_singleton calls call ih =>
    have hlast : ((Center.fresh config car).published (calls ++ [call])).getLast? =
        (((Center.fresh config car).after calls).update? call).or
          ((Center.fresh config car).published calls).getLast? := by
      rw [published_concat, List.getLast?_append]
      cases ((Center.fresh config car).after calls).update? call with
      | none => rfl
      | some u => rfl
    rw [after_concat, hlast]
    exact ih.next call

theorem Current.expire (h : c.Current last) {e : Expiry} {u : Update}
    (hu : (c.expire e).1 = some u) : Repeats last u := by
  rw [Center.expire] at hu
  obtain ⟨-, hexpire⟩ | ⟨key, -, hkey, hexpire⟩ := HeadsUp.expire_cases e c.headsUp
  · rw [hexpire] at hu
    cases hu
  · rw [hexpire] at hu
    cases hu
    refine ⟨rfl, ?_⟩
    cases last with
    | none =>
      rw [(h.first rfl).2] at hkey
      cases hkey
    | some previous => exact ⟨previous, rfl, (h.cards previous rfl).symm⟩

end Center

end Noticeboard
