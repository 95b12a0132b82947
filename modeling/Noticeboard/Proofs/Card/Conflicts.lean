import Mathlib.Data.List.Induction
import Mathlib.Data.List.Nodup
import Noticeboard.Proofs.Card.Grouping

namespace Noticeboard

namespace Card

variable {c c' : Card} {r : Record}

theorem identity_place (c : Card) (r : Record) : (c.place r).identity = c.identity := by
  rw [place]
  split
  · rfl
  · rfl

theorem package_place (c : Card) (r : Record) : (c.place r).package = c.package := by
  rw [place]
  split
  · rfl
  · rfl

theorem identity_add (h : c.add r = .ok c') : c'.identity = c.identity := by
  rw [(add_eq_ok h).2, identity_place]

theorem package_add (h : c.add r = .ok c') : c'.package = some r.package := by
  rw [(add_eq_ok h).2, package_place]

theorem add_eq_error {err : PackageConflict} (h : c.add r = .error err) :
    ∃ package, c.package = some package ∧ package ≠ r.package ∧
      err = ⟨c.identity, package, r.package⟩ := by
  rw [add] at h
  split at h
  · cases h
  · rename_i package hpackage
    split at h
    · cases h
    · rename_i hother
      exact ⟨package, hpackage, hother, (Except.error.inj h).symm⟩

end Card

variable {p : SharingRule} {identity : String} {r : Record} {cards cards' : List Card}
  {records : List Record} {err : PackageConflict}

theorem addTo_eq_error (h : addTo identity r cards = .error err) :
    ∃ card ∈ cards, ∃ package, card.identity = identity ∧ card.package = some package ∧
      package ≠ r.package ∧ err = ⟨identity, package, r.package⟩ := by
  obtain ⟨before, card, after, hidentity, -, hcards, haddTo⟩ := exists_addTo identity r cards
  rw [haddTo] at h
  cases hadd : card.add r with
  | ok card' =>
    rw [hadd] at h
    cases h
  | error refused =>
    rw [hadd] at h
    cases h
    obtain ⟨package, hpackage, hother, herr⟩ := Card.add_eq_error hadd
    rw [hidentity] at herr
    obtain rfl | ⟨-, rfl, -⟩ := hcards
    · have hmem : card ∈ before ++ card :: after := List.mem_append_right _ List.mem_cons_self
      exact ⟨card, hmem, package, hidentity, hpackage, hother, herr⟩
    · cases hpackage

theorem nodup_addTo (h : addTo identity r cards = .ok cards')
    (hnodup : (cards.map Card.identity).Nodup) : (cards'.map Card.identity).Nodup := by
  obtain ⟨before, card, card', after, hcard, rfl, hidentity, hbefore, hcards⟩ := addTo_cases h
  obtain rfl | ⟨rfl, rfl, rfl⟩ := hcards
  · rw [List.map_append, List.map_cons] at hnodup ⊢
    rwa [Card.identity_add hcard]
  · have hnew : identity ∉ cards.map Card.identity := by
      intro hmem
      obtain ⟨other, hother, he⟩ := List.mem_map.1 hmem
      exact hbefore other hother he
    rw [List.map_append, List.map_singleton, Card.identity_add hcard, hidentity,
      ← List.concat_eq_append]
    exact hnodup.concat hnew

/-- One card of the new ones holds the record. All others were there before, and of those before
none is missing but the one that the record came onto. -/
theorem mem_addTo (h : addTo identity r cards = .ok cards') :
    ∃ card' ∈ cards', card'.identity = identity ∧ card'.package = some r.package ∧
      (∀ card ∈ cards', card = card' ∨ card ∈ cards) ∧
      ∀ card ∈ cards, card ∈ cards' ∨
        card.identity = identity ∧ (card.package = none ∨ card.package = some r.package) := by
  obtain ⟨before, card, card', after, hcard, rfl, hidentity, -, hcards⟩ := addTo_cases h
  refine ⟨card', List.mem_append_right _ List.mem_cons_self,
    (Card.identity_add hcard).trans hidentity, Card.package_add hcard, ?_, ?_⟩
  · intro x hx
    rw [List.mem_append, List.mem_cons] at hx
    obtain rfl | ⟨rfl, -, rfl⟩ := hcards
    · rw [List.mem_append, List.mem_cons]
      tauto
    · rw [List.mem_nil_iff, or_false] at hx
      exact hx.symm
  · intro x hx
    obtain rfl | ⟨rfl, -, -⟩ := hcards
    · rw [List.mem_append, List.mem_cons] at hx ⊢
      obtain hx | rfl | hx := hx
      · exact .inl (.inl hx)
      · exact .inr ⟨hidentity, (Card.add_eq_ok hcard).1⟩
      · exact .inl (.inr (.inr hx))
    · exact .inl (List.mem_append_left _ hx)

/-- The cards of some records: one for each identity, with the package of its records. -/
structure Gathered (p : SharingRule) (records : List Record) (cards : List Card) : Prop where
  nodup : (cards.map Card.identity).Nodup
  held : ∀ card ∈ cards, ∃ r ∈ records,
    p.identity r = card.identity ∧ card.package = some r.package
  placed : ∀ r ∈ records, ∃ card ∈ cards,
    card.identity = p.identity r ∧ card.package = some r.package

theorem Gathered.addTo (h : Gathered p records cards)
    (hadd : addTo (p.identity r) r cards = .ok cards') : Gathered p (records ++ [r]) cards' := by
  obtain ⟨card', hmem, hidentity, hpackage, hnew, hold⟩ := mem_addTo hadd
  refine ⟨nodup_addTo hadd h.nodup, ?_, ?_⟩
  · intro card hcard
    obtain rfl | hcard := hnew card hcard
    · exact ⟨r, List.mem_append_right _ (List.mem_singleton_self r), hidentity.symm, hpackage⟩
    · obtain ⟨x, hx, hheld⟩ := h.held card hcard
      exact ⟨x, List.mem_append_left _ hx, hheld⟩
  · intro x hx
    rw [List.mem_append, List.mem_singleton] at hx
    obtain hx | rfl := hx
    · obtain ⟨card, hcard, hx, hxpackage⟩ := h.placed x hx
      obtain hcard | ⟨hsame, hallowed⟩ := hold card hcard
      · exact ⟨card, hcard, hx, hxpackage⟩
      · -- The record came onto the card of `x`, so it has the package of `x`.
        rw [hxpackage] at hallowed
        have hpackages : some x.package = some r.package :=
          hallowed.resolve_left (Option.some_ne_none _)
        exact ⟨card', hmem, hidentity.trans (hsame.symm.trans hx), hpackage.trans hpackages.symm⟩
    · exact ⟨card', hmem, hidentity, hpackage⟩

theorem gathered_group (h : group p records = .ok cards) : Gathered p records cards := by
  induction h using group_induction with
  | nil => exact ⟨List.nodup_nil, List.forall_mem_nil _, List.forall_mem_nil _⟩
  | concat records cards r cards' _ _ hadd ih => exact ih.addTo hadd

theorem Gathered.package_eq (h : Gathered p records cards) {a b : Record} (ha : a ∈ records)
    (hb : b ∈ records) (hidentity : p.identity a = p.identity b) : a.package = b.package := by
  obtain ⟨x, hx, hxa, hpa⟩ := h.placed a ha
  obtain ⟨y, hy, hyb, hpb⟩ := h.placed b hb
  have hsame : x = y :=
    List.inj_on_of_nodup_map h.nodup hx hy (hxa.trans (hidentity.trans hyb.symm))
  rw [hsame, hpb] at hpa
  exact (Option.some.inj hpa).symm

theorem group_eq_error (h : group p records = .error err) :
    ∃ earlier r cards, earlier ++ [r] <+: records ∧ group p earlier = .ok cards ∧
      addTo (p.identity r) r cards = .error err := by
  induction records using List.reverseRecOn with
  | nil => cases h
  | append_singleton records r ih =>
    rw [group_concat] at h
    cases hgroup : group p records with
    | error refused =>
      rw [hgroup] at h
      cases h
      obtain ⟨earlier, x, cards, hprefix, hfound⟩ := ih hgroup
      exact ⟨earlier, x, cards, hprefix.trans (List.prefix_append records [r]), hfound⟩
    | ok cards =>
      rw [hgroup] at h
      exact ⟨records, r, cards, List.prefix_rfl, hgroup, h⟩

theorem group_fails_iff (p : SharingRule) (records : List Record) :
    (∃ err, group p records = .error err) ↔
      ∃ a ∈ records, ∃ b ∈ records, p.identity a = p.identity b ∧ a.package ≠ b.package := by
  constructor
  · rintro ⟨err, h⟩
    obtain ⟨earlier, r, cards, hprefix, hgroup, hadd⟩ := group_eq_error h
    obtain ⟨card, hcard, package, hidentity, hpackage, hother, -⟩ := addTo_eq_error hadd
    obtain ⟨x, hx, hxidentity, hxpackage⟩ := (gathered_group hgroup).held card hcard
    rw [hpackage] at hxpackage
    refine ⟨x, hprefix.subset (List.mem_append_left _ hx), r,
      hprefix.subset (List.mem_append_right _ (List.mem_singleton_self r)),
      hxidentity.trans hidentity, ?_⟩
    rwa [← Option.some.inj hxpackage]
  · rintro ⟨a, ha, b, hb, hidentity, hother⟩
    cases hgroup : group p records with
    | error err => exact ⟨err, rfl⟩
    | ok cards => exact absurd ((gathered_group hgroup).package_eq ha hb hidentity) hother

end Noticeboard
