import Noticeboard.Proofs.Board.Children
import Noticeboard.Proofs.Card.Members

namespace Noticeboard

variable {config : Config} {ranking : Ranking} {records : List Record} {cards : List Card}

namespace Card

/-- The rank of a card. A card without a rank stands above all ranks. -/
def height (ranking : Ranking) (c : Card) : Int :=
  (c.rank? ranking).elim 2147483648 Int32.toInt

/-- Of cards with a rank the lower rank comes first, and all of them come before a card without. Of
equals, the one comes first whose identity stands first by `place`. -/
def Precedes (ranking : Ranking) (place : String → Nat) (a b : Card) : Prop :=
  match a.rank? ranking, b.rank? ranking with
  | some x, some y => x < y ∨ x = y ∧ place a.identity < place b.identity
  | some _, none => True
  | none, some _ => False
  | none, none => place a.identity < place b.identity

variable {place : String → Nat} {a b : Card}

theorem precedes_iff :
    a.Precedes ranking place b ↔ a.height ranking < b.height ranking ∨
      a.height ranking = b.height ranking ∧ place a.identity < place b.identity := by
  rw [Precedes, height, height]
  cases a.rank? ranking with
  | none =>
    cases b.rank? ranking with
    | none => simp
    | some y =>
      have hy := y.toInt_lt
      simp only [Option.elim_none, Option.elim_some, false_iff]
      omega
  | some x =>
    cases b.rank? ranking with
    | none =>
      have hx := x.toInt_lt
      simp only [Option.elim_none, Option.elim_some, true_iff]
      omega
    | some y => simp [Int32.lt_iff_toInt_lt, Int32.toInt_inj]

theorem isLE_compareCards :
    (compareCards ranking a b).isLE ↔ a.height ranking ≤ b.height ranking := by
  rw [compareCards, height, height]
  cases a.rank? ranking with
  | none =>
    cases b.rank? ranking with
    | none => simp
    | some y => simpa using y.toInt_lt
  | some x =>
    cases b.rank? ranking with
    | none => simpa using Int.le_of_lt x.toInt_lt
    | some y => simp [Std.isLE_compare, Int32.le_iff_toInt_le]

theorem rank?_eq_of_height_eq (h : a.height ranking = b.height ranking) :
    a.rank? ranking = b.rank? ranking := by
  rw [height, height] at h
  cases ha : a.rank? ranking with
  | none =>
    cases hb : b.rank? ranking with
    | none => rfl
    | some y =>
      rw [ha, hb] at h
      exact absurd h.symm (Int.ne_of_lt y.toInt_lt)
  | some x =>
    cases hb : b.rank? ranking with
    | none =>
      rw [ha, hb] at h
      exact absurd h (Int.ne_of_lt x.toInt_lt)
    | some y =>
      rw [ha, hb] at h
      exact congrArg some (Int32.toInt_inj.1 h)

theorem Precedes.asymm (h : a.Precedes ranking place b) : ¬ b.Precedes ranking place a := by
  rw [precedes_iff] at h ⊢
  omega

theorem precedes_of_le (hle : a.height ranking ≤ b.height ranking)
    (hplace : b.height ranking ≤ a.height ranking → place a.identity < place b.identity) :
    a.Precedes ranking place b := by
  rw [precedes_iff]
  omega

instance : Decidable (a.Precedes ranking place b) :=
  decidable_of_iff _ precedes_iff.symm

end Card

theorem preorders_compareCards (ranking : Ranking) :
    Preorders fun a b => (compareCards ranking a b).isLE where
  trans a b c hab hbc := by
    rw [Card.isLE_compareCards] at hab hbc ⊢
    exact Int.le_trans hab hbc
  total a b := by
    rw [Bool.or_eq_true, Card.isLE_compareCards, Card.isLE_compareCards]
    exact Int.le_total _ _

theorem ranked_rankCards (ranking : Ranking) (cards : List Card) :
    (rankCards ranking cards).Pairwise fun a b => (compareCards ranking a b).isLE :=
  ((preorders_compareCards ranking).arranged_mergeSort cards).ascending

/-- Cards come in the order of the first records of their identities. -/
theorem pairwise_group {p : SharingRule} {pick : Record → Bool} {cards : List Card}
    (h : group p (records.filter pick) = .ok cards) :
    cards.Pairwise fun a b =>
      firstIdx pick p.identity records a.identity <
        firstIdx pick p.identity records b.identity := by
  have hplaces := pairwise_eraseDups pick p.identity records
  rwa [← (complete_group h).identities, List.pairwise_map] at hplaces

theorem precedes_rankCards {p : SharingRule} {pick : Record → Bool} {cards : List Card}
    (h : group p (records.filter pick) = .ok cards) :
    (rankCards ranking cards).Pairwise
      (Card.Precedes ranking (firstIdx pick p.identity records)) := by
  have hle := preorders_compareCards ranking
  have hpairs := (hle.arranged_mergeSort cards).pairwise hle (pairwise_group h)
  apply hpairs.imp
  intro a b hab
  rw [Card.isLE_compareCards, Card.isLE_compareCards] at hab
  exact Card.precedes_of_le hab.1 hab.2

/-- The cards with children, in the one order that there is: by rank, those without a rank last, and
equals by the first record of their identity among those that are listed. -/
theorem arrange_eq_ok_iff (hgrouping : config.groupNotifications) :
    arrange config ranking records = .ok cards ↔
      ∃ grouped, group config.sharing (config.listed ranking records) = .ok grouped ∧
        cards.Perm (grouped.filter fun c => 0 < c.childCount) ∧
        cards.Pairwise (Card.Precedes ranking
          (firstIdx (config.lists ranking) config.sharing.identity records)) := by
  constructor
  · intro h
    obtain ⟨grouped, hgroup, rfl⟩ := arrange_of_grouping hgrouping h
    refine ⟨grouped, hgroup, (rankCards_perm ranking grouped).filter _, ?_⟩
    exact (precedes_rankCards hgroup).filter _
  · rintro ⟨grouped, hgroup, hperm, hpairs⟩
    rw [arrange_of_group hgrouping hgroup, Except.ok.injEq]
    have hranked := ((rankCards_perm ranking grouped).filter fun c => 0 < c.childCount).trans
      hperm.symm
    apply List.Perm.eq_of_pairwise _ ((precedes_rankCards hgroup).filter _) hpairs hranked
    intro a b _ _ hab hba
    exact absurd hba hab.asymm

def shelved (key : String) (group : Option String) (isSummary : Bool) : Record where
  id := { key := key, package := "app", number := 0 }
  groupKey := group
  isSummary := isSummary
  postTime := (Instant.of? 30 0).get (by decide)

/-- A summary without a rank above a ranked record, two equal ranks, the lowest rank of all, and a
summary that is left alone. -/
def shelf : List Record :=
  [shelved "x" none false, shelved "a" (some "g") false, shelved "h" (some "g") true,
    shelved "y" none false, shelved "e" (some "empty") true, shelved "z" none false]

def shelfRanking : Ranking :=
  .ofList [("x", ⟨.low, 0⟩), ("a", ⟨.high, -5⟩), ("y", ⟨.high, 0⟩), ("e", ⟨.high, -9⟩),
    ("z", ⟨.min, -2147483648⟩)]

def sharedCard : Card :=
  ⟨"g:g|app", some "app", some (shelved "h" (some "g") true), [shelved "a" (some "g") false]⟩

theorem arrange_shelf :
    Config.default.groupNotifications ∧ arrange .default shelfRanking shelf =
      .ok [.alone (shelved "z" none false), .alone (shelved "x" none false),
        .alone (shelved "y" none false), sharedCard] := by
  have hgroup : group Config.default.sharing (Config.default.listed shelfRanking shelf) =
      .ok [.alone (shelved "x" none false), sharedCard, .alone (shelved "y" none false),
        ⟨"g:empty|app", some "app", some (shelved "e" (some "empty") true), []⟩,
        .alone (shelved "z" none false)] := by
    decide +kernel
  refine ⟨rfl, (arrange_eq_ok_iff rfl).2 ⟨_, hgroup, ?_, ?_⟩⟩
  · decide +kernel
  · decide +kernel

end Noticeboard
