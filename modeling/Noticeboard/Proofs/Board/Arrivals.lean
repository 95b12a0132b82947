import Noticeboard.Proofs.Board.Children
import Noticeboard.Proofs.Board.Places
import Noticeboard.Proofs.Card.Regrouping

namespace Noticeboard

variable {p : SharingRule} {records records' : List Record} {cards cards' : List Card}

namespace Card

variable {identity : String} {members members' : List Record}

theorem newestFirst_of_perm (hperm : records.Perm records')
    (htime : ∀ a ∈ records, ∀ b ∈ records, a.postTime = b.postTime → a = b) :
    newestFirst records = newestFirst records' := by
  apply Record.preorders_newer.mergeSort_eq_of_perm hperm
  intro a ha b hb hab hba
  exact htime a ha b hb (Instant.le_antisymm (of_decide_eq_true hba) (of_decide_eq_true hab))

theorem ofMembers_of_perm (hperm : members.Perm members')
    (hpackage : ∀ a ∈ members, ∀ b ∈ members, a.package = b.package)
    (hsummary : ∀ a ∈ members, ∀ b ∈ members, a.isSummary → b.isSummary → a = b)
    (htime : ∀ a ∈ members, ∀ b ∈ members, ¬ a.isSummary → ¬ b.isSummary →
      a.postTime = b.postTime → a = b) :
    ofMembers identity members = ofMembers identity members' := by
  have hpackages : members.map Record.package = members'.map Record.package := by
    apply eq_of_perm_of_forall_eq (hperm.map _)
    simpa only [List.forall_mem_map] using hpackage
  have hsummaries : members.filter (·.isSummary) = members'.filter (·.isSummary) := by
    apply eq_of_perm_of_forall_eq (hperm.filter _)
    intro a ha b hb
    obtain ⟨ha, hasummary⟩ := List.mem_filter.1 ha
    obtain ⟨hb, hbsummary⟩ := List.mem_filter.1 hb
    exact hsummary a ha b hb hasummary hbsummary
  have hothers : newestFirst (members.filter (!·.isSummary)) =
      newestFirst (members'.filter (!·.isSummary)) := by
    apply newestFirst_of_perm (hperm.filter _)
    intro a ha b hb
    obtain ⟨ha, haother⟩ := List.mem_filter.1 ha
    obtain ⟨hb, hbother⟩ := List.mem_filter.1 hb
    exact htime a ha b hb (by simpa using haother) (by simpa using hbother)
  rw [ofMembers, ofMembers, ← List.head?_map, hpackages, List.head?_map, hsummaries, hothers]

end Card

/-- No identity has two summaries, nor two other records of one time. A record that comes twice is
not two. -/
structure SharingRule.Untied (p : SharingRule) (records : List Record) : Prop where
  summary : ∀ a ∈ records, ∀ b ∈ records, p.identity a = p.identity b →
    a.isSummary → b.isSummary → a = b
  time : ∀ a ∈ records, ∀ b ∈ records, p.identity a = p.identity b →
    ¬ a.isSummary → ¬ b.isSummary → a.postTime = b.postTime → a = b

theorem ofMembers_members_of_perm (h : group p records = .ok cards)
    (hperm : records.Perm records') (huntied : p.Untied records) (identity : String) :
    Card.ofMembers identity (p.members identity records) =
      Card.ofMembers identity (p.members identity records') := by
  have hmembers : ∀ a ∈ p.members identity records, ∀ b ∈ p.members identity records,
      a ∈ records ∧ b ∈ records ∧ p.identity a = p.identity b := by
    intro a ha b hb
    obtain ⟨ha, hidentity⟩ := List.mem_filter.1 ha
    obtain ⟨hb, hidentity'⟩ := List.mem_filter.1 hb
    exact ⟨ha, hb, (beq_iff_eq.1 hidentity).trans (beq_iff_eq.1 hidentity').symm⟩
  apply Card.ofMembers_of_perm (hperm.filter _)
  · intro a ha b hb
    obtain ⟨ha, hb, hsame⟩ := hmembers a ha b hb
    exact (gathered_group h).package_eq ha hb hsame
  · intro a ha b hb
    obtain ⟨ha, hb, hsame⟩ := hmembers a ha b hb
    exact huntied.summary a ha b hb hsame
  · intro a ha b hb
    obtain ⟨ha, hb, hsame⟩ := hmembers a ha b hb
    exact huntied.time a ha b hb hsame

theorem group_perm (h : group p records = .ok cards) (h' : group p records' = .ok cards')
    (hperm : records.Perm records') (huntied : p.Untied records) : cards.Perm cards' := by
  rw [(complete_group h).eq_map, (complete_group h').eq_map,
    funext (ofMembers_members_of_perm h hperm huntied)]
  exact (eraseDups_perm (hperm.map p.identity)).map _

variable {config : Config} {ranking : Ranking}

theorem exists_ok_iff {ε α : Type} (x : Except ε α) :
    (∃ a, x = .ok a) ↔ ¬ ∃ e, x = .error e := by
  cases x with
  | ok a => simp
  | error e => simp

theorem Config.listed_perm (config : Config) (ranking : Ranking) (hperm : records.Perm records') :
    (config.listed ranking records).Perm (config.listed ranking records') :=
  hperm.filter _

theorem exists_arrange_iff_of_perm (hperm : records.Perm records') :
    (∃ cards, arrange config ranking records = .ok cards) ↔
      ∃ cards, arrange config ranking records' = .ok cards := by
  rw [exists_ok_iff, exists_ok_iff, arrange_fails_iff, arrange_fails_iff]
  simp only [(config.listed_perm ranking hperm).mem_iff]

/-- Cards stand in the order of their ranks in just one way if no two of them have the same rank. -/
theorem Card.eq_of_perm_of_ranked (hperm : cards.Perm cards')
    (hcards : cards.Pairwise fun a b => (compareCards ranking a b).isLE)
    (hcards' : cards'.Pairwise fun a b => (compareCards ranking a b).isLE)
    (hranks : (cards.map (·.rank? ranking)).Nodup) : cards = cards' := by
  apply hperm.eq_of_pairwise _ hcards hcards'
  intro a b ha hb hab hba
  rw [isLE_compareCards] at hab hba
  have hrank := rank?_eq_of_height_eq (Int.le_antisymm hab hba)
  exact List.inj_on_of_nodup_map hranks ha (hperm.mem_iff.2 hb) hrank

/-- There is a list for some records just if there is one for the same records in another order. It
is the same list if no identity has two summaries or two other records of one time, and no two cards
have the same rank or none. -/
theorem arrange_of_perm (hgrouping : config.groupNotifications) (hperm : records.Perm records') :
    ((∃ cards, arrange config ranking records = .ok cards) ↔
      ∃ cards, arrange config ranking records' = .ok cards) ∧
    ∀ cards, arrange config ranking records = .ok cards →
      config.sharing.Untied (config.listed ranking records) →
      (cards.map (·.rank? ranking)).Nodup → arrange config ranking records' = .ok cards := by
  have hsucceeds : (∃ cards, arrange config ranking records = .ok cards) ↔
      ∃ cards, arrange config ranking records' = .ok cards := exists_arrange_iff_of_perm hperm
  refine ⟨hsucceeds, fun cards h huntied hranks => ?_⟩
  obtain ⟨cards', h'⟩ := hsucceeds.1 ⟨cards, h⟩
  obtain ⟨grouped, hgroup, rfl⟩ := arrange_of_grouping hgrouping h
  obtain ⟨grouped', hgroup', rfl⟩ := arrange_of_grouping hgrouping h'
  have hgrouped := group_perm hgroup hgroup' (config.listed_perm ranking hperm) huntied
  have hranked : (rankCards ranking grouped).Perm (rankCards ranking grouped') :=
    ((rankCards_perm ranking grouped).trans hgrouped).trans (rankCards_perm ranking grouped').symm
  rw [h', Card.eq_of_perm_of_ranked (hranked.filter _)
    ((ranked_rankCards ranking grouped).filter _) ((ranked_rankCards ranking grouped').filter _)
    hranks]

def letter (key : String) : Record :=
  { message key late false with groupKey := none }

def mail : List Record :=
  [letter "m", message "a" early false, letter "n", message "s" early true]

def mailRanking : Ranking :=
  .ofList [("s", ⟨.low, 2⟩), ("n", ⟨.low, -1⟩), ("a", ⟨.high, -5⟩)]

def mailCards : List Card :=
  [.alone (letter "n"),
    ⟨"g:thread|chat", some "chat", some (message "s" early true), [message "a" early false]⟩,
    .alone (letter "m")]

theorem arrange_mail_reverse :
    Config.default.groupNotifications ∧ arrange .default mailRanking mail = .ok mailCards ∧
      arrange .default mailRanking mail.reverse = .ok mailCards := by
  have hgrouping : Config.default.groupNotifications := rfl
  have hranks : (mailCards.map (·.rank? mailRanking)).Nodup := by decide +kernel
  have hmail : arrange .default mailRanking mail = .ok mailCards := by
    have hgroup : group Config.default.sharing (Config.default.listed mailRanking mail) =
        .ok [.alone (letter "m"),
          ⟨"g:thread|chat", some "chat", some (message "s" early true), [message "a" early false]⟩,
          .alone (letter "n")] := by
      decide +kernel
    rw [arrange_of_group hgrouping hgroup, Except.ok.injEq]
    symm
    apply Card.eq_of_perm_of_ranked _ _ ((ranked_rankCards mailRanking _).filter _) hranks
    · refine List.Perm.trans ?_ ((rankCards_perm mailRanking _).filter _).symm
      decide +kernel
    · decide +kernel
  obtain ⟨-, hreverse⟩ := arrange_of_perm hgrouping (List.reverse_perm mail).symm
  refine ⟨hgrouping, hmail, hreverse mailCards hmail ⟨?_, ?_⟩ hranks⟩
  · decide +kernel
  · decide +kernel

end Noticeboard
