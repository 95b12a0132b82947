import Noticeboard.Proofs.Center.Calls
import Noticeboard.Proofs.Difference.Script

namespace Noticeboard

namespace Center

/-- What a viewer shows after a call; nothing if the edits reach outside its list. -/
def see? (shown : List Card) : Call × Option Update → Option (List Card)
  | (call, answer) =>
    if call.isReset then some []
    else answer.elim (some shown) fun u => u.edits.patch? shown u.cards

def watch? (trace : List (Call × Option Update)) : Option (List Card) :=
  trace.foldlM see? []

variable {c : Center} {u : Update}

theorem cards_of_reset {call : Call} (hreset : call.isReset) (h : c.update? call = some u) :
    u.cards = [] := by
  obtain ⟨now, e, s, rfl, hrefresh, -⟩ | ⟨e, rfl, -⟩ := update?_cases h
  · cases e with
    | reset => exact c.session.refresh_reset hrefresh
    | _ => cases hreset
  · cases hreset

theorem patch?_of_update? {call : Call} (hreset : ¬ call.isReset) (h : c.update? call = some u) :
    u.edits.patch? c.session.cards u.cards = some u.cards := by
  obtain ⟨now, e, s, rfl, hrefresh, -⟩ | ⟨e, rfl, hcards, hedits⟩ := update?_cases h
  · obtain ⟨-, hedits, -⟩ := Session.refresh_eq_ok hrefresh
    have hcards := c.cards_apply now e
    dsimp only at hedits
    rw [if_neg hreset] at hcards
    rw [hedits, hcards]
    exact Card.patch?_comparison _ _
  · rw [hedits, hcards]
    rfl

theorem see?_cards (call : Call) :
    see? c.session.cards (call, c.update? call) = some (c.next call).session.cards := by
  by_cases hreset : call.isReset
  · rw [see?, if_pos hreset]
    cases h : c.update? call with
    | none => rw [cards_next_of_silent h, if_pos hreset]
    | some u => rw [cards_next_of_update? h, cards_of_reset hreset h]
  · rw [see?, if_neg hreset]
    cases h : c.update? call with
    | none => rw [cards_next_of_silent h, if_neg hreset, Option.elim_none]
    | some u => rw [cards_next_of_update? h, Option.elim_some, patch?_of_update? hreset h]

theorem foldlM_see?_trace (c : Center) (calls : List Call) :
    (c.trace calls).foldlM see? c.session.cards = some (c.after calls).session.cards := by
  induction calls generalizing c with
  | nil => rfl
  | cons call calls ih =>
    rw [trace, List.foldlM_cons, see?_cards, after_cons]
    exact ih (c.next call)

/-- After each update every viewer shows the list that came with it. -/
theorem viewer_shows_cards (config : Config) (car : Car) (calls : List Call) (call : Call) :
    ∃ shown, watch? ((fresh config car).trace (calls ++ [call])) = some shown ∧
      ∀ u, ((fresh config car).after calls).update? call = some u → shown = u.cards := by
  have hwatch := foldlM_see?_trace (fresh config car) (calls ++ [call])
  refine ⟨_, hwatch, ?_⟩
  intro u hu
  rw [after_concat]
  exact cards_next_of_update? hu

end Center

end Noticeboard
