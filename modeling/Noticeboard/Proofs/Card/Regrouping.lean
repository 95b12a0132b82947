import Noticeboard.Proofs.Card.Members

namespace Noticeboard

variable {p : SharingRule} {records members : List Record} {cards : List Card} {card : Card}
  {r : Record}

namespace Card

theorem Shows.mem (h : card.Shows members) (hr : r ∈ card.records) : r ∈ members := by
  obtain hheader | hchild := List.mem_append.1 hr
  · rw [Option.mem_toList, h.header] at hheader
    exact List.mem_of_mem_filter (List.mem_of_getLast? hheader)
  · exact List.mem_of_mem_filter (h.perm.mem_iff.1 hchild)

theorem Shows.isSummary_header (h : card.Shows members) (hr : r ∈ card.header.toList) :
    r.isSummary := by
  rw [Option.mem_toList, h.header] at hr
  exact (List.mem_filter.1 (List.mem_of_getLast? hr)).2

theorem Shows.not_isSummary_child (h : card.Shows members) (hr : r ∈ card.children) :
    r.isSummary = false := by
  simpa using (List.mem_filter.1 (h.perm.mem_iff.1 hr)).2

theorem Shows.records_ne_nil (h : card.Shows members) (hmembers : members ≠ []) :
    card.records ≠ [] := by
  intro hnil
  obtain ⟨hheader, hchildren⟩ := List.append_eq_nil_iff.1 hnil
  rw [Option.toList_eq_nil_iff, h.header, List.getLast?_eq_none_iff,
    List.filter_eq_nil_iff] at hheader
  have hothers := h.perm
  rw [hchildren, List.nil_perm, List.filter_eq_nil_iff] at hothers
  obtain ⟨r, hr⟩ := List.exists_mem_of_ne_nil members hmembers
  exact hothers r hr (by simpa using hheader r hr)

theorem Shows.ofMembers_records (h : card.Shows members) (hmembers : members ≠ []) :
    ofMembers card.identity card.records = card := by
  have hsummaries : card.records.filter (·.isSummary) = card.header.toList := by
    rw [records, List.filter_append, List.filter_eq_self.2 fun r hr => h.isSummary_header hr,
      List.filter_eq_nil_iff.2 fun r hr => by simp [h.not_isSummary_child hr], List.append_nil]
  have hothers : card.records.filter (!·.isSummary) = card.children := by
    rw [records, List.filter_append,
      List.filter_eq_nil_iff.2 fun r hr => by simp [h.isSummary_header hr],
      List.filter_eq_self.2 fun r hr => by simp [h.not_isSummary_child hr], List.nil_append]
  have hpackage : card.records.head?.map Record.package = card.package := by
    cases hfirst : card.records.head? with
    | none => exact absurd (List.head?_eq_none_iff.1 hfirst) (h.records_ne_nil hmembers)
    | some first => exact (h.package first (h.mem (List.mem_of_head? hfirst))).symm
  have hheader : card.header.toList.getLast? = card.header := by
    cases card.header with
    | none => rfl
    | some header => rfl
  rw [ofMembers, hpackage, hsummaries, hheader, hothers, newestFirst_of_pairwise h.descending]

end Card

/-- Cards of different identities, each with some records of its own. -/
structure Separate (p : SharingRule) (cards : List Card) : Prop where
  nodup : (cards.map Card.identity).Nodup
  identity : ∀ card ∈ cards, ∀ r ∈ card.records, p.identity r = card.identity
  ne_nil : ∀ card ∈ cards, card.records ≠ []

theorem flatten_cons (card : Card) (cards : List Card) :
    flatten (card :: cards) = card.records ++ flatten cards :=
  List.flatMap_cons

namespace Separate

theorem tail (h : Separate p (card :: cards)) : Separate p cards where
  nodup := h.nodup.of_cons
  identity c hc := h.identity c (List.mem_cons_of_mem card hc)
  ne_nil c hc := h.ne_nil c (List.mem_cons_of_mem card hc)

theorem ne_of_mem_flatten (h : Separate p (card :: cards)) (hr : r ∈ flatten cards) :
    p.identity r ≠ card.identity := by
  obtain ⟨c, hc, hrc⟩ := List.mem_flatMap.1 hr
  rw [h.tail.identity c hc r hrc]
  intro hsame
  exact (List.nodup_cons.1 h.nodup).1 (hsame ▸ List.mem_map_of_mem hc)

theorem members_flatten (h : Separate p cards) (hcard : card ∈ cards) :
    p.members card.identity (flatten cards) = card.records := by
  induction cards with
  | nil => cases hcard
  | cons first cards ih =>
    rw [flatten_cons, SharingRule.members, List.filter_append]
    obtain rfl | hcard := List.mem_cons.1 hcard
    · rw [List.filter_eq_self.2, List.filter_eq_nil_iff.2, List.append_nil]
      · intro r hr
        simpa using h.ne_of_mem_flatten hr
      · intro r hr
        simpa using h.identity card List.mem_cons_self r hr
    · rw [List.filter_eq_nil_iff.2, List.nil_append]
      · exact ih h.tail hcard
      · intro r hr hsame
        rw [h.identity first List.mem_cons_self r hr, beq_iff_eq] at hsame
        exact (List.nodup_cons.1 h.nodup).1 (hsame ▸ List.mem_map_of_mem hcard)

theorem identities_flatten (h : Separate p cards) :
    ((flatten cards).map p.identity).eraseDups = cards.map Card.identity := by
  induction cards with
  | nil => rfl
  | cons card cards ih =>
    rw [flatten_cons, List.map_append, eraseDups_append_of_forall_eq (b := card.identity),
      ih h.tail, List.map_cons]
    · simpa using h.ne_nil card List.mem_cons_self
    · simpa using h.identity card List.mem_cons_self
    · intro hmem
      obtain ⟨r, hr, hsame⟩ := List.mem_map.1 hmem
      exact h.ne_of_mem_flatten hr hsame

end Separate

theorem separate_group (h : group p records = .ok cards) : Separate p cards where
  nodup := (complete_group h).nodup
  identity card hcard r hr := by
    have hmem := (shows_group h hcard).mem hr
    exact beq_iff_eq.1 (List.mem_filter.1 hmem).2
  ne_nil card hcard :=
    (shows_group h hcard).records_ne_nil ((complete_group h).members_ne_nil hcard)

theorem complete_flatten (h : group p records = .ok cards) : Complete p (flatten cards) cards where
  identities := (separate_group h).identities_flatten.symm
  members card hcard := by
    rw [(separate_group h).members_flatten hcard]
    exact ((shows_group h hcard).ofMembers_records ((complete_group h).members_ne_nil hcard)).symm

theorem mem_of_mem_flatten (h : group p records = .ok cards) (hr : r ∈ flatten cards) :
    r ∈ records := by
  obtain ⟨card, hcard, hr⟩ := List.mem_flatMap.1 hr
  exact List.mem_of_mem_filter ((shows_group h hcard).mem hr)

/-- The records of the cards make the same cards again. -/
theorem group_flatten (h : group p records = .ok cards) : group p (flatten cards) = .ok cards := by
  cases hagain : group p (flatten cards) with
  | error err =>
    obtain ⟨a, ha, b, hb, hidentity, hother⟩ := (group_fails_iff p _).1 ⟨err, hagain⟩
    have hsame := (gathered_group h).package_eq (mem_of_mem_flatten h ha) (mem_of_mem_flatten h hb)
      hidentity
    exact absurd hsame hother
  | ok again => rw [(complete_group hagain).unique (complete_flatten h)]

def early : Instant :=
  (Instant.of? 10 0).get (by decide)

def late : Instant :=
  (Instant.of? 20 0).get (by decide)

def message (key : String) (time : Instant) (isSummary : Bool) : Record where
  id := { key := key, package := "chat", number := 0 }
  groupKey := some "thread"
  isSummary := isSummary
  postTime := time

/-- Two summaries of one thread, two messages of one time, and a record of its own in between. -/
def thread : List Record :=
  [message "a" early false, { message "n" late false with groupKey := none },
    message "s" early true, message "b" late false, message "c" early false, message "t" early true]

def threadCards : List Card :=
  [⟨"g:thread|chat", some "chat", some (message "t" early true),
      [message "b" late false, message "a" early false, message "c" early false]⟩,
    ⟨"u:0|chat|0||n", some "chat", none, [{ message "n" late false with groupKey := none }]⟩]

theorem complete_threadCards : Complete {} thread threadCards where
  identities := by decide +kernel
  members := by
    have hsorted : Card.newestFirst
        [message "a" early false, message "b" late false, message "c" early false] =
        [message "b" late false, message "a" early false, message "c" early false] := by
      have hlate : ¬ late ≤ early := by decide
      have hearly : early ≤ late := by decide
      simp [Card.newestFirst, List.mergeSort, List.MergeSort.Internal.splitInTwo, message,
        hlate, hearly, Instant.le_refl]
    have hthread : SharingRule.members {} "g:thread|chat" thread =
        [message "a" early false, message "s" early true, message "b" late false,
          message "c" early false, message "t" early true] := by
      decide +kernel
    have halone : SharingRule.members {} "u:0|chat|0||n" thread =
        [{ message "n" late false with groupKey := none }] := by
      decide +kernel
    rw [threadCards, List.forall_mem_cons, List.forall_mem_singleton, hthread, halone, ← hsorted]
    refine ⟨rfl, ?_⟩
    simp [Card.ofMembers, Card.newestFirst, message, Record.package]

theorem group_threadCards :
    group {} thread = .ok threadCards ∧ group {} (flatten threadCards) = .ok threadCards := by
  have hcards : group {} thread = .ok threadCards := by
    cases hgroup : group {} thread with
    | error err =>
      obtain ⟨a, ha, b, hb, -, hother⟩ := (group_fails_iff {} thread).1 ⟨err, hgroup⟩
      have hchat : ∀ r ∈ thread, r.package = "chat" := by decide
      exact absurd ((hchat a ha).trans (hchat b hb).symm) hother
    | ok cards => rw [(complete_group hgroup).unique complete_threadCards]
  exact ⟨hcards, group_flatten hcards⟩

end Noticeboard
