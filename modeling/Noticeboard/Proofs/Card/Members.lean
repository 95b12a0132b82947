import Noticeboard.Proofs.Card.Conflicts
import Noticeboard.Proofs.Order

namespace Noticeboard

namespace Record

def newer (a b : Record) : Bool :=
  decide (b.postTime ≤ a.postTime)

theorem preorders_newer : Preorders newer where
  trans a b c hab hbc := by
    simp only [newer, decide_eq_true_eq] at hab hbc ⊢
    exact Instant.le_trans hbc hab
  total a b := by
    simpa [newer] using Instant.le_total b.postTime a.postTime

theorem tied_newer (a : Record) : tied newer a = fun b => b.postTime == a.postTime := by
  funext b
  rw [Bool.eq_iff_iff, tied_iff, beq_iff_eq, newer, newer, decide_eq_true_eq, decide_eq_true_eq]
  constructor
  · rintro ⟨hba, hab⟩
    exact Instant.le_antisymm hba hab
  · intro hsame
    rw [hsame]
    exact ⟨Instant.le_refl _, Instant.le_refl _⟩

def ofTime (t : Instant) : Record where
  id := { key := "", package := "", number := 0 }
  postTime := t

end Record

namespace Card

theorem arranged_newestFirst (records : List Record) :
    Arranged Record.newer records (newestFirst records) :=
  Record.preorders_newer.arranged_mergeSort records

theorem newestFirst_append (records more : List Record) :
    newestFirst (newestFirst records ++ more) = newestFirst (records ++ more) :=
  Record.preorders_newer.mergeSort_append records more

theorem filter_newestFirst (records : List Record) (t : Instant) :
    (newestFirst records).filter (·.postTime == t) = records.filter (·.postTime == t) := by
  have hties := (arranged_newestFirst records).ties (Record.ofTime t)
  rwa [Record.tied_newer] at hties

theorem pairwise_newestFirst (records : List Record) :
    (newestFirst records).Pairwise fun a b => b.postTime ≤ a.postTime := by
  apply (arranged_newestFirst records).ascending.imp
  intro a b hab
  exact of_decide_eq_true hab

theorem newestFirst_of_pairwise {records : List Record}
    (h : records.Pairwise fun a b => b.postTime ≤ a.postTime) :
    newestFirst records = records := by
  apply List.mergeSort_of_pairwise
  exact h.imp fun hab => decide_eq_true hab

def ofMembers (identity : String) (members : List Record) : Card where
  identity := identity
  package := members.head?.map Record.package
  header := (members.filter (·.isSummary)).getLast?
  children := newestFirst (members.filter (!·.isSummary))

variable {identity : String} {members : List Record} {r : Record} {c : Card}

theorem ofMembers_nil (identity : String) : ofMembers identity [] = empty identity := by
  simp [ofMembers, empty, newestFirst]

theorem place_ofMembers (hpackage : members.head?.map Record.package = none ∨
      members.head?.map Record.package = some r.package) :
    place { ofMembers identity members with package := some r.package } r =
      ofMembers identity (members ++ [r]) := by
  have hfirst : (members ++ [r]).head?.map Record.package = some r.package := by
    cases members with
    | nil => rfl
    | cons first members => exact hpackage.resolve_left (Option.some_ne_none _)
  rw [place, ofMembers, ofMembers, hfirst]
  cases hr : r.isSummary with
  | true => simp [hr]
  | false => simp [hr, newestFirst_append]

theorem add_ofMembers (h : (ofMembers identity members).add r = .ok c) :
    c = ofMembers identity (members ++ [r]) := by
  obtain ⟨hpackage, rfl⟩ := add_eq_ok h
  exact place_ofMembers hpackage

end Card

namespace SharingRule

def members (p : SharingRule) (identity : String) (records : List Record) : List Record :=
  records.filter (p.identity · == identity)

def first? (p : SharingRule) (identity : String) (records : List Record) : Option Record :=
  records.find? (p.identity · == identity)

/-- Whether a record is of another package than the first one of its identity. -/
def strays (p : SharingRule) (records : List Record) (r : Record) : Bool :=
  (p.first? (p.identity r) records).any (·.package != r.package)

variable {p : SharingRule} {identity : String} {records : List Record} {r : Record}

theorem head?_members (p : SharingRule) (identity : String) (records : List Record) :
    (p.members identity records).head? = p.first? identity records :=
  List.head?_filter

theorem members_concat_self (p : SharingRule) (records : List Record) (r : Record) :
    p.members (p.identity r) (records ++ [r]) = p.members (p.identity r) records ++ [r] := by
  simp [members]

theorem members_concat_of_ne (h : identity ≠ p.identity r) (records : List Record) :
    p.members identity (records ++ [r]) = p.members identity records := by
  simp [members, h.symm]

end SharingRule

variable {p : SharingRule} {records : List Record} {cards cards' : List Card} {r : Record}
  {err : PackageConflict}

/-- There is a card for each identity, with all of its records. -/
structure Complete (p : SharingRule) (records : List Record) (cards : List Card) : Prop where
  identities : cards.map Card.identity = (records.map p.identity).eraseDups
  members : ∀ card ∈ cards, card = Card.ofMembers card.identity (p.members card.identity records)

namespace Complete

theorem nil (p : SharingRule) : Complete p [] [] :=
  ⟨rfl, List.forall_mem_nil _⟩

theorem nodup (h : Complete p records cards) : (cards.map Card.identity).Nodup := by
  rw [h.identities]
  exact nodup_eraseDups _

theorem mem_identities_iff (h : Complete p records cards) {identity : String} :
    identity ∈ cards.map Card.identity ↔ identity ∈ records.map p.identity := by
  rw [h.identities, List.mem_eraseDups]

theorem members_ne_nil (h : Complete p records cards) {card : Card} (hcard : card ∈ cards) :
    p.members card.identity records ≠ [] := by
  obtain ⟨r, hr, hidentity⟩ := List.mem_map.1 (h.mem_identities_iff.1 (List.mem_map_of_mem hcard))
  apply List.ne_nil_of_mem
  exact List.mem_filter.2 ⟨hr, beq_iff_eq.2 hidentity⟩

theorem members_eq_nil (h : Complete p records cards) {identity : String}
    (hnone : ∀ card ∈ cards, card.identity ≠ identity) : p.members identity records = [] := by
  rw [SharingRule.members, List.filter_eq_nil_iff]
  intro x hx hidentity
  have hmem := h.mem_identities_iff.2 (List.mem_map_of_mem hx)
  obtain ⟨card, hcard, hsame⟩ := List.mem_map.1 hmem
  exact hnone card hcard (hsame.trans (beq_iff_eq.1 hidentity))

variable {before after : List Card} {card card' : Card}

/-- The card of the identity takes the record, and those of other identities stay as they are. -/
theorem replace (h : Complete p records cards)
    (hcard : card = Card.ofMembers (p.identity r) (p.members (p.identity r) records))
    (hadd : card.add r = .ok card')
    (hothers : ∀ c ∈ before ++ after, c ∈ cards ∧ c.identity ≠ p.identity r)
    (hidentities : (before ++ card :: after).map Card.identity =
      ((records ++ [r]).map p.identity).eraseDups) :
    Complete p (records ++ [r]) (before ++ card' :: after) := by
  have hidentity : card'.identity = card.identity := Card.identity_add hadd
  subst hcard
  refine ⟨?_, ?_⟩
  · rw [← hidentities, List.map_append, List.map_append, List.map_cons, List.map_cons, hidentity]
  · intro c hc
    rw [List.mem_append, List.mem_cons, or_left_comm, ← List.mem_append] at hc
    obtain rfl | hc := hc
    · have hsame : c.identity = p.identity r := hidentity
      rw [hsame, p.members_concat_self]
      exact Card.add_ofMembers hadd
    · obtain ⟨hold, hne⟩ := hothers c hc
      rw [p.members_concat_of_ne hne]
      exact h.members c hold

theorem addTo (h : Complete p records cards)
    (hadd : addTo (p.identity r) r cards = .ok cards') : Complete p (records ++ [r]) cards' := by
  obtain ⟨before, card, card', after, hcard, rfl, hidentity, hbefore, hcards⟩ := addTo_cases hadd
  obtain rfl | ⟨rfl, rfl, rfl⟩ := hcards
  · have hmem : card ∈ before ++ card :: after := List.mem_append_right _ List.mem_cons_self
    have hknown : p.identity r ∈ records.map p.identity := by
      rw [← h.mem_identities_iff, ← hidentity]
      exact List.mem_map_of_mem hmem
    have hnodup := h.nodup
    rw [List.map_append, List.map_cons, List.nodup_middle, List.nodup_cons, ← List.map_append,
      hidentity] at hnodup
    apply h.replace (hidentity ▸ h.members card hmem) hcard
    · intro c hc
      refine ⟨?_, fun hsame => hnodup.1 (hsame ▸ List.mem_map_of_mem hc)⟩
      rw [List.mem_append, List.mem_cons]
      exact (List.mem_append.1 hc).imp_right .inr
    · rw [h.identities, List.map_append, List.map_singleton, eraseDups_concat, if_pos hknown]
  · have hnew : p.identity r ∉ records.map p.identity := by
      rw [← h.mem_identities_iff]
      intro hmem
      obtain ⟨c, hc, hsame⟩ := List.mem_map.1 hmem
      exact hbefore c hc hsame
    have hempty : Card.empty (p.identity r) =
        Card.ofMembers (p.identity r) (p.members (p.identity r) records) := by
      rw [h.members_eq_nil hbefore, Card.ofMembers_nil]
    apply h.replace hempty hcard
    · intro c hc
      rw [List.append_nil] at hc
      exact ⟨hc, hbefore c hc⟩
    · rw [List.map_append, h.identities, List.map_append, List.map_singleton, List.map_singleton,
        eraseDups_concat, if_neg hnew]
      rfl

theorem eq_map (h : Complete p records cards) :
    cards = (records.map p.identity).eraseDups.map fun identity =>
      Card.ofMembers identity (p.members identity records) := by
  rw [← h.identities, List.map_map]
  conv_lhs => rw [← List.map_id cards]
  exact List.map_congr_left h.members

theorem unique (h : Complete p records cards) (h' : Complete p records cards') :
    cards = cards' := by
  rw [h.eq_map, ← h'.eq_map]

end Complete

theorem complete_group (h : group p records = .ok cards) : Complete p records cards := by
  induction h using group_induction with
  | nil => exact .nil p
  | concat records cards r cards' _ _ hadd ih => exact ih.addTo hadd

namespace SharingRule

theorem exists_first? {x : Record} (hx : x ∈ records) :
    ∃ first ∈ records, p.first? (p.identity x) records = some first ∧
      p.identity first = p.identity x := by
  cases hfirst : records.find? (p.identity · == p.identity x) with
  | none => exact absurd (beq_self_eq_true _) (List.find?_eq_none.1 hfirst x hx)
  | some first =>
    have hsame := List.find?_some hfirst
    exact ⟨first, List.mem_of_find?_eq_some hfirst, hfirst, beq_iff_eq.1 hsame⟩

theorem first?_append {identity : String} {first : Record}
    (h : p.first? identity records = some first) (later : List Record) :
    p.first? identity (records ++ later) = some first := by
  rw [first?, List.find?_append, ← first?, h]
  rfl

theorem strays_iff {first : Record} (h : p.first? (p.identity r) records = some first) :
    p.strays records r ↔ first.package ≠ r.package := by
  simp [strays, h]

end SharingRule

theorem not_strays_of_group (h : group p records = .ok cards) (hr : r ∈ records)
    (later : List Record) : ¬ p.strays (records ++ later) r := by
  obtain ⟨first, hmem, hfirst, hidentity⟩ := p.exists_first? hr
  rw [p.strays_iff (p.first?_append hfirst later)]
  intro hother
  exact hother ((gathered_group h).package_eq hmem hr hidentity)

theorem Complete.exists_first? (h : Complete p records cards) {card : Card} (hcard : card ∈ cards)
    {package : String} (hpackage : card.package = some package) :
    ∃ first, p.first? card.identity records = some first ∧ first.package = package := by
  rw [h.members card hcard, Card.ofMembers, p.head?_members] at hpackage
  exact Option.map_eq_some_iff.1 hpackage

theorem strays_of_group_eq_error (h : group p records = .error err) :
    ∃ first r, p.first? (p.identity r) records = some first ∧
      records.find? (p.strays records) = some r ∧
      err = ⟨p.identity r, first.package, r.package⟩ := by
  obtain ⟨earlier, r, cards, ⟨later, rfl⟩, hgroup, hadd⟩ := group_eq_error h
  obtain ⟨card, hcard, package, hidentity, hpackage, hother, rfl⟩ := addTo_eq_error hadd
  obtain ⟨first, hfirst, rfl⟩ := (complete_group hgroup).exists_first? hcard hpackage
  rw [hidentity] at hfirst
  rw [List.append_assoc]
  have hfound := p.first?_append hfirst ([r] ++ later)
  refine ⟨first, r, hfound, ?_, rfl⟩
  rw [List.find?_eq_some_iff_append]
  refine ⟨(p.strays_iff hfound).2 hother, earlier, later, rfl, ?_⟩
  intro x hx
  simpa using not_strays_of_group hgroup hx ([r] ++ later)

/-- The card shows some records of one package: the last summary above, all others below it, the
most recent first, and those of one time in their order. -/
structure Card.Shows (c : Card) (members : List Record) : Prop where
  package : ∀ r ∈ members, c.package = some r.package
  header : c.header = (members.filter (·.isSummary)).getLast?
  perm : c.children.Perm (members.filter (!·.isSummary))
  descending : c.children.Pairwise fun a b => b.postTime ≤ a.postTime
  stable : ∀ t, c.children.filter (·.postTime == t) =
    (members.filter (!·.isSummary)).filter (·.postTime == t)

theorem Card.shows_ofMembers {members : List Record} {identity : String}
    (hpackage : ∀ a ∈ members, ∀ b ∈ members, a.package = b.package) :
    (ofMembers identity members).Shows members where
  package r hr := by
    cases members with
    | nil => cases hr
    | cons first members => exact congrArg some (hpackage first List.mem_cons_self r hr)
  header := rfl
  perm := newestFirst_perm _
  descending := pairwise_newestFirst _
  stable := filter_newestFirst _

theorem shows_group (h : group p records = .ok cards) {card : Card} (hcard : card ∈ cards) :
    card.Shows (p.members card.identity records) := by
  rw [(complete_group h).members card hcard]
  apply Card.shows_ofMembers
  intro a ha b hb
  obtain ⟨ha, hidentity⟩ := List.mem_filter.1 ha
  obtain ⟨hb, hidentity'⟩ := List.mem_filter.1 hb
  apply (gathered_group h).package_eq ha hb
  rw [beq_iff_eq.1 hidentity, beq_iff_eq.1 hidentity']

/-- Grouping fails just if two records of one identity are of different packages, and then at the
first record that is not of the package its identity began with. Else there is one card for each
identity, in the order of the first records, and it shows all records of the identity. -/
theorem group_gathers (p : SharingRule) (records : List Record) :
    ((∃ err, group p records = .error err) ↔
      ∃ a ∈ records, ∃ b ∈ records, p.identity a = p.identity b ∧ a.package ≠ b.package) ∧
    (∀ err, group p records = .error err →
      ∃ first r, p.first? (p.identity r) records = some first ∧
        records.find? (p.strays records) = some r ∧
        err = ⟨p.identity r, first.package, r.package⟩) ∧
    ∀ cards, group p records = .ok cards →
      cards.map Card.identity = (records.map p.identity).eraseDups ∧
      ∀ card ∈ cards, card.Shows (p.members card.identity records) := by
  refine ⟨group_fails_iff p records, fun err h => strays_of_group_eq_error h, ?_⟩
  intro cards h
  exact ⟨(complete_group h).identities, fun card hcard => shows_group h hcard⟩

end Noticeboard
