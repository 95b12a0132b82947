import Mathlib.Data.List.Induction
import Mathlib.Data.List.Perm.Basic
import Noticeboard.Card.Basic

namespace Noticeboard

def childrenOf (cards : List Card) : List Record :=
  cards.flatMap Card.children

namespace Card

variable {c c' : Card} {r : Record}

theorem add_eq_ok (h : c.add r = .ok c') :
    (c.package = none ∨ c.package = some r.package) ∧
      c' = place { c with package := some r.package } r := by
  rw [add] at h
  split at h
  · rename_i hpackage
    exact ⟨.inl hpackage, (Except.ok.inj h).symm⟩
  · rename_i package hpackage
    split at h
    · rename_i hsame
      subst hsame
      have hc : { c with package := some r.package } = c := by rw [← hpackage]
      rw [hc]
      exact ⟨.inr hpackage, (Except.ok.inj h).symm⟩
    · cases h

theorem newestFirst_perm (records : List Record) : (newestFirst records).Perm records :=
  List.mergeSort_perm records _

theorem children_place (c : Card) (r : Record) :
    (c.place r).children.Perm (c.children ++ [r].filter (!·.isSummary)) := by
  rw [place]
  cases hr : r.isSummary with
  | true => simp [hr]
  | false => simpa [hr] using newestFirst_perm (c.children ++ [r])

theorem header_place (c : Card) (r : Record) :
    (c.place r).header = if r.isSummary then some r else c.header := by
  rw [place]
  split
  · rfl
  · rfl

theorem children_add (h : c.add r = .ok c') :
    c'.children.Perm (c.children ++ [r].filter (!·.isSummary)) := by
  rw [(add_eq_ok h).2]
  exact children_place { c with package := some r.package } r

theorem header_add (h : c.add r = .ok c') {header : Record} (hheader : c'.header = some header) :
    c.header = some header ∨ header = r ∧ r.isSummary := by
  rw [(add_eq_ok h).2, header_place] at hheader
  split at hheader
  · rename_i hr
    exact .inr ⟨(Option.some.inj hheader).symm, hr⟩
  · exact .inl hheader

end Card

variable {p : SharingRule} {identity : String} {r : Record} {cards cards' : List Card}
  {records : List Record}

/-- The record comes onto the first card of its identity, or else onto a new one at the end. -/
theorem exists_addTo (identity : String) (r : Record) (cards : List Card) :
    ∃ before card after, card.identity = identity ∧ (∀ c ∈ before, c.identity ≠ identity) ∧
      (cards = before ++ card :: after ∨
        cards = before ∧ card = Card.empty identity ∧ after = []) ∧
      addTo identity r cards = (card.add r).map fun card' => before ++ card' :: after := by
  induction cards with
  | nil =>
    refine ⟨[], Card.empty identity, [], rfl, List.forall_mem_nil _, .inr ⟨rfl, rfl, rfl⟩, ?_⟩
    rw [addTo]
    cases (Card.empty identity).add r with
    | error err => rfl
    | ok card' => rfl
  | cons card cards ih =>
    by_cases hcard : card.identity = identity
    · refine ⟨[], card, cards, hcard, List.forall_mem_nil _, .inl rfl, ?_⟩
      rw [addTo, if_pos hcard]
      cases card.add r with
      | error err => rfl
      | ok card' => rfl
    · obtain ⟨before, found, after, hidentity, hbefore, hcards, hadd⟩ := ih
      refine ⟨card :: before, found, after, hidentity, List.forall_mem_cons.2 ⟨hcard, hbefore⟩,
        hcards.imp (congrArg _) (And.imp_left (congrArg _)), ?_⟩
      rw [addTo, if_neg hcard, hadd]
      cases found.add r with
      | error err => rfl
      | ok card' => rfl

theorem addTo_cases (h : addTo identity r cards = .ok cards') :
    ∃ before card card' after, card.add r = .ok card' ∧ cards' = before ++ card' :: after ∧
      card.identity = identity ∧ (∀ c ∈ before, c.identity ≠ identity) ∧
      (cards = before ++ card :: after ∨
        cards = before ∧ card = Card.empty identity ∧ after = []) := by
  obtain ⟨before, card, after, hidentity, hbefore, hcards, haddTo⟩ := exists_addTo identity r cards
  rw [haddTo] at h
  cases hadd : card.add r with
  | error err =>
    rw [hadd] at h
    cases h
  | ok card' =>
    rw [hadd] at h
    cases h
    exact ⟨before, card, card', after, hadd, rfl, hidentity, hbefore, hcards⟩

theorem childrenOf_append (cards more : List Card) :
    childrenOf (cards ++ more) = childrenOf cards ++ childrenOf more :=
  List.flatMap_append

theorem childrenOf_cons (card : Card) (cards : List Card) :
    childrenOf (card :: cards) = card.children ++ childrenOf cards :=
  List.flatMap_cons

theorem children_addTo (h : addTo identity r cards = .ok cards') :
    (childrenOf cards').Perm (childrenOf cards ++ [r].filter (!·.isSummary)) := by
  obtain ⟨before, card, card', after, hadd, rfl, -, -, hcards⟩ := addTo_cases h
  have hbefore : (childrenOf (before ++ card' :: after)).Perm
      (childrenOf (before ++ card :: after) ++ [r].filter (!·.isSummary)) := by
    rw [childrenOf_append, childrenOf_append, childrenOf_cons, childrenOf_cons, List.append_assoc,
      List.append_assoc]
    refine List.Perm.append_left _ (((Card.children_add hadd).append_right _).trans ?_)
    rw [List.append_assoc]
    exact List.perm_append_comm.append_left _
  obtain rfl | ⟨rfl, rfl, rfl⟩ := hcards
  · exact hbefore
  · have hempty : childrenOf (cards ++ [Card.empty identity]) = childrenOf cards := by
      rw [childrenOf_append]
      exact List.append_nil _
    rwa [hempty] at hbefore

theorem header_addTo (h : addTo identity r cards = .ok cards') {card : Card} (hcard : card ∈ cards')
    {header : Record} (hheader : card.header = some header) :
    (∃ c ∈ cards, c.header = some header) ∨ header = r ∧ r.isSummary := by
  obtain ⟨before, old, new, after, hadd, rfl, -, -, hcards⟩ := addTo_cases h
  rw [List.mem_append, List.mem_cons] at hcard
  obtain rfl | ⟨rfl, rfl, rfl⟩ := hcards
  · obtain hmem | rfl | hmem := hcard
    · exact .inl ⟨card, List.mem_append_left _ hmem, hheader⟩
    · obtain hold | hnew := Card.header_add hadd hheader
      · exact .inl ⟨old, List.mem_append_right _ List.mem_cons_self, hold⟩
      · exact .inr hnew
    · exact .inl ⟨card, List.mem_append_right _ (List.mem_cons_of_mem _ hmem), hheader⟩
  · obtain hmem | rfl | hmem := hcard
    · exact .inl ⟨card, hmem, hheader⟩
    · obtain hold | hnew := Card.header_add hadd hheader
      · cases hold
      · exact .inr hnew
    · cases hmem

theorem group_concat (p : SharingRule) (records : List Record) (r : Record) :
    group p (records ++ [r]) = (group p records).bind (addTo (p.identity r) r) := by
  rw [group, List.foldlM_append]
  cases h : group p records with
  | error err =>
    rw [group] at h
    rw [h]
    rfl
  | ok cards =>
    rw [group] at h
    rw [h]
    exact bind_pure (addTo (p.identity r) r cards)

/-- What holds of no cards, and of the cards after one more record if of those before, holds of the
cards of all records. -/
@[elab_as_elim]
theorem group_induction {motive : ∀ records cards, group p records = .ok cards → Prop}
    (nil : motive [] [] rfl)
    (concat : ∀ records cards r cards' (h : group p records = .ok cards)
      (h' : group p (records ++ [r]) = .ok cards'), addTo (p.identity r) r cards = .ok cards' →
      motive records cards h → motive (records ++ [r]) cards' h')
    {records : List Record} {cards : List Card} (h : group p records = .ok cards) :
    motive records cards h := by
  induction records using List.reverseRecOn generalizing cards with
  | nil =>
    cases h
    exact nil
  | append_singleton records r ih =>
    have hadd := h
    rw [group_concat] at hadd
    cases hgroup : group p records with
    | error err =>
      rw [hgroup] at hadd
      cases hadd
    | ok earlier =>
      rw [hgroup] at hadd
      exact concat records earlier r cards hgroup h hadd (ih hgroup)

theorem children_group (h : group p records = .ok cards) :
    (childrenOf cards).Perm (records.filter (!·.isSummary)) := by
  induction h using group_induction with
  | nil => exact List.Perm.refl _
  | concat records cards r cards' _ _ hadd ih =>
    rw [List.filter_append]
    exact (children_addTo hadd).trans (ih.append_right _)

theorem header_group (h : group p records = .ok cards) {card : Card} (hcard : card ∈ cards)
    {header : Record} (hheader : card.header = some header) :
    header ∈ records ∧ header.isSummary := by
  induction h using group_induction generalizing card with
  | nil => cases hcard
  | concat records cards r cards' _ _ hadd ih =>
    obtain ⟨c, hc, hold⟩ | ⟨rfl, hsummary⟩ := header_addTo hadd hcard hheader
    · obtain ⟨hmem, hsummary⟩ := ih hc hold
      exact ⟨List.mem_append_left _ hmem, hsummary⟩
    · exact ⟨List.mem_append_right _ (List.mem_singleton_self header), hsummary⟩

end Noticeboard
