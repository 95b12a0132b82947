import Noticeboard.Board.Basic
import Noticeboard.Proofs.Card.Conflicts

namespace Noticeboard

variable {config : Config} {ranking : Ranking} {records : List Record} {cards : List Card}

/-- The records that the list is to show, apart from headers. -/
def Config.shown (config : Config) (ranking : Ranking) (records : List Record) : List Record :=
  (config.listed ranking records).filter (!·.isSummary)

def Card.alone (r : Record) : Card :=
  ⟨r.ownIdentity, some r.package, none, [r]⟩

theorem childrenOf_filter (cards : List Card) :
    childrenOf (cards.filter fun c => 0 < c.childCount) = childrenOf cards := by
  induction cards with
  | nil => rfl
  | cons card cards ih =>
    by_cases hcount : 0 < card.childCount
    · rw [List.filter_cons_of_pos (by simpa using hcount), childrenOf_cons, childrenOf_cons, ih]
    · have hnone : card.children = [] := List.length_eq_zero_iff.1 (Nat.eq_zero_of_not_pos hcount)
      rw [List.filter_cons_of_neg (by simpa using hcount), childrenOf_cons, ih, hnone,
        List.nil_append]

theorem rankCards_perm (ranking : Ranking) (cards : List Card) :
    (rankCards ranking cards).Perm cards :=
  List.mergeSort_perm cards _

theorem rankRecords_perm (ranking : Ranking) (records : List Record) :
    (rankRecords ranking records).Perm records :=
  List.mergeSort_perm records _

theorem arrange_of_group (hgrouping : config.groupNotifications) {grouped : List Card}
    (hgroup : group config.sharing (config.listed ranking records) = .ok grouped) :
    arrange config ranking records =
      .ok ((rankCards ranking grouped).filter fun c => 0 < c.childCount) := by
  rw [arrange, if_pos hgrouping, hgroup]
  rfl

theorem arrange_of_grouping (hgrouping : config.groupNotifications)
    (h : arrange config ranking records = .ok cards) :
    ∃ grouped, group config.sharing (config.listed ranking records) = .ok grouped ∧
      cards = (rankCards ranking grouped).filter fun c => 0 < c.childCount := by
  cases hgroup : group config.sharing (config.listed ranking records) with
  | error err =>
    rw [arrange, if_pos hgrouping, hgroup] at h
    cases h
  | ok grouped =>
    rw [arrange_of_group hgrouping hgroup] at h
    exact ⟨grouped, rfl, (Except.ok.inj h).symm⟩

theorem filter_single (records : List Record) :
    (records.map fun r => Card.single r.ownIdentity r).filter (fun c => 0 < c.childCount) =
      (records.filter (!·.isSummary)).map Card.alone := by
  induction records with
  | nil => rfl
  | cons r records ih =>
    rw [List.map_cons]
    cases hr : r.isSummary with
    | true =>
      rw [Card.single, if_pos hr, List.filter_cons_of_neg (by simp [Card.childCount]),
        List.filter_cons_of_neg (by simp [hr]), ih]
    | false =>
      rw [Card.single, if_neg (by simp [hr]), List.filter_cons_of_pos (by simp [Card.childCount]),
        List.filter_cons_of_pos (by simp [hr]), ih, List.map_cons]
      rfl

theorem arrange_of_not_grouping (hgrouping : ¬ config.groupNotifications) :
    arrange config ranking records =
      .ok (((rankRecords ranking (config.listed ranking records)).filter (!·.isSummary)).map
        Card.alone) := by
  rw [← filter_single, arrange, if_neg hgrouping]
  rfl

theorem childrenOf_map_alone (records : List Record) :
    childrenOf (records.map Card.alone) = records := by
  induction records with
  | nil => rfl
  | cons r records ih =>
    rw [List.map_cons, childrenOf_cons, ih]
    rfl

theorem children_arrange (h : arrange config ranking records = .ok cards) :
    (childrenOf cards).Perm (config.shown ranking records) := by
  by_cases hgrouping : config.groupNotifications
  · obtain ⟨grouped, hgroup, rfl⟩ := arrange_of_grouping hgrouping h
    rw [childrenOf_filter]
    exact ((rankCards_perm ranking grouped).flatMap_right _).trans (children_group hgroup)
  · rw [arrange_of_not_grouping hgrouping] at h
    cases h
    rw [childrenOf_map_alone]
    exact (rankRecords_perm ranking _).filter _

theorem childCount_arrange (h : arrange config ranking records = .ok cards) {card : Card}
    (hcard : card ∈ cards) : 0 < card.childCount := by
  by_cases hgrouping : config.groupNotifications
  · obtain ⟨grouped, -, rfl⟩ := arrange_of_grouping hgrouping h
    exact of_decide_eq_true (List.mem_filter.1 hcard).2
  · rw [arrange_of_not_grouping hgrouping] at h
    cases h
    obtain ⟨r, -, rfl⟩ := List.mem_map.1 hcard
    exact Nat.zero_lt_one

theorem header_arrange (h : arrange config ranking records = .ok cards) {card : Card}
    (hcard : card ∈ cards) {header : Record} (hheader : card.header = some header) :
    header ∈ config.listed ranking records ∧ header.isSummary := by
  by_cases hgrouping : config.groupNotifications
  · obtain ⟨grouped, hgroup, rfl⟩ := arrange_of_grouping hgrouping h
    have hmem := (rankCards_perm ranking grouped).mem_iff.1 (List.mem_of_mem_filter hcard)
    exact header_group hgroup hmem hheader
  · rw [arrange_of_not_grouping hgrouping] at h
    cases h
    obtain ⟨r, -, rfl⟩ := List.mem_map.1 hcard
    cases hheader

theorem arrange_eq_error_iff {err : PackageConflict} :
    arrange config ranking records = .error err ↔
      config.groupNotifications ∧
        group config.sharing (config.listed ranking records) = .error err := by
  by_cases hgrouping : config.groupNotifications
  · rw [arrange, if_pos hgrouping, and_iff_right hgrouping]
    cases group config.sharing (config.listed ranking records) with
    | error refused => rfl
    | ok grouped =>
      constructor
      · intro h
        cases h
      · intro h
        cases h
  · rw [arrange_of_not_grouping hgrouping]
    constructor
    · intro h
      cases h
    · intro h
      exact absurd h.1 hgrouping

theorem arrange_fails_iff :
    (∃ err, arrange config ranking records = .error err) ↔
      config.groupNotifications ∧ ∃ a ∈ config.listed ranking records,
        ∃ b ∈ config.listed ranking records,
          config.sharing.identity a = config.sharing.identity b ∧ a.package ≠ b.package := by
  simp only [arrange_eq_error_iff, exists_and_left, group_fails_iff]

theorem arrange_ok_of_subsingleton (config : Config) (ranking : Ranking)
    (hrecords : ∀ a ∈ records, ∀ b ∈ records, a = b) :
    ∃ cards, arrange config ranking records = .ok cards := by
  cases harrange : arrange config ranking records with
  | ok cards => exact ⟨cards, rfl⟩
  | error err =>
    obtain ⟨-, a, ha, b, hb, -, hpackage⟩ := arrange_fails_iff.1 ⟨err, harrange⟩
    have hsame := hrecords a (List.mem_of_mem_filter ha) b (List.mem_of_mem_filter hb)
    exact absurd (congrArg Record.package hsame) hpackage

/-- With or without shared cards the list shows the same records, each as often as it was given.
Without shared cards it can always be made, and then every record has a card without header. -/
theorem arrange_shows (config : Config) (ranking : Ranking) (records : List Record) :
    (∀ cards, arrange config ranking records = .ok cards →
      (childrenOf cards).Perm (config.shown ranking records) ∧
      (∀ card ∈ cards, 0 < card.childCount) ∧
      ∀ card ∈ cards, ∀ header, card.header = some header →
        header ∈ records ∧ config.lists ranking header ∧ header.isSummary) ∧
    ∃ shown : List Record, shown.Perm (config.shown ranking records) ∧
      arrange { config with groupNotifications := false } ranking records =
        .ok (shown.map Card.alone) ∧
      ∀ cards, arrange { config with groupNotifications := true } ranking records = .ok cards →
        (childrenOf cards).Perm (childrenOf (shown.map Card.alone)) := by
  constructor
  · intro cards h
    refine ⟨children_arrange h, fun card hcard => childCount_arrange h hcard, ?_⟩
    intro card hcard header hheader
    obtain ⟨hlisted, hsummary⟩ := header_arrange h hcard hheader
    obtain ⟨hmem, hlists⟩ := List.mem_filter.1 hlisted
    exact ⟨hmem, hlists, hsummary⟩
  · have hshown : ((rankRecords ranking (config.listed ranking records)).filter
        (!·.isSummary)).Perm (config.shown ranking records) :=
      (rankRecords_perm ranking _).filter _
    refine ⟨_, hshown, arrange_of_not_grouping Bool.false_ne_true, ?_⟩
    intro cards h
    rw [childrenOf_map_alone]
    exact (children_arrange h).trans hshown.symm

end Noticeboard
