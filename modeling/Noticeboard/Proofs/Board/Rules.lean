import Noticeboard.Proofs.Board.Children
import Noticeboard.Proofs.Order

namespace Noticeboard

variable {config : Config} {ranking : Ranking} {records : List Record}

/-- What puts a record before others, the weightiest first. -/
def Ranking.rules (ranking : Ranking) : List (Record → Bool) :=
  [(·.isAbout .carEmergency), fun r => ranking.importance? r.key == some .high,
    (·.isAbout .carWarning), (·.isAbout .carInformation)]

/-- Whether an importance is less than another one. To have none is less than the least. -/
def Importance.isLess : Option Importance → Option Importance → Bool
  | none, some _ => true
  | some x, some y => decide (x < y)
  | _, none => false

namespace Record

/-- The first rule that matches just one of two records decides for that record. -/
def prevails (a b : Record) (otherwise : Bool) : List (Record → Bool) → Bool
  | [] => otherwise
  | rule :: rules => if rule a != rule b then rule a else prevails a b otherwise rules

/-- Whether a record comes before another one wherever it stood. Where the rules do not decide, the
greater importance does. -/
def outranks (ranking : Ranking) (a b : Record) : Bool :=
  a.prevails b (Importance.isLess (ranking.importance? b.key) (ranking.importance? a.key))
    ranking.rules

def mayPrecede (ranking : Ranking) (a b : Record) : Bool :=
  !b.outranks ranking a

def drawsWith (ranking : Ranking) (a b : Record) : Bool :=
  !a.outranks ranking b && !b.outranks ranking a

end Record

theorem isLE_compare_level (x y : Option Importance) :
    (compare (Priority.level x) (Priority.level y)).isLE = !Importance.isLess y x := by
  rw [Bool.eq_iff_iff, Nat.isLE_compare, Bool.not_eq_true']
  cases x with
  | none =>
    cases y with
    | none => simp [Importance.isLess]
    | some y => simp [Priority.level, Importance.isLess]
  | some x =>
    cases y with
    | none => simp [Priority.level, Importance.isLess]
    | some y =>
      have hlt : y < x ↔ y.level < x.level := Iff.rfl
      simp only [Priority.level, Importance.isLess, decide_eq_false_iff_not, hlt]
      omega

theorem isLE_then {a b : Record} {otherwise : Bool} {rules : List (Record → Bool)} {o : Ordering}
    (rule : Record → Bool) (h : o.isLE = !b.prevails a otherwise rules) :
    ((compare (rule b) (rule a)).then o).isLE = !b.prevails a otherwise (rule :: rules) := by
  rw [Record.prevails]
  cases rule b with
  | false =>
    cases rule a with
    | false => exact h
    | true => rfl
  | true =>
    cases rule a with
    | false => rfl
    | true => exact h

theorem isLE_compareRecords (ranking : Ranking) (a b : Record) :
    (compareRecords ranking a b).isLE = a.mayPrecede ranking b := by
  rw [compareRecords, Priority.compare, Ordering.then_assoc, Ordering.then_assoc,
    Ordering.then_assoc]
  apply isLE_then (·.isAbout .carEmergency)
  apply isLE_then fun r => ranking.importance? r.key == some .high
  apply isLE_then (·.isAbout .carWarning)
  apply isLE_then (·.isAbout .carInformation)
  exact isLE_compare_level _ _

instance transCmp_compare : Std.TransCmp Priority.compare :=
  inferInstanceAs (Std.TransCmp (compareLex (compareLex (compareLex (compareLex
    (compareOn Priority.emergency) (compareOn Priority.highImportance))
    (compareOn Priority.warning)) (compareOn Priority.information))
    (compareOn fun p => Priority.level p.importance)))

theorem preorders_mayPrecede (ranking : Ranking) : Preorders (Record.mayPrecede ranking) where
  trans a b c hab hbc := by
    rw [← isLE_compareRecords] at hab hbc ⊢
    exact transCmp_compare.isLE_trans hbc hab
  total a b := by
    rw [← isLE_compareRecords, ← isLE_compareRecords, compareRecords, compareRecords,
      transCmp_compare.eq_swap]
    cases Priority.compare (a.priority ranking) (b.priority ranking) with
    | lt => rfl
    | eq => rfl
    | gt => rfl

theorem tied_mayPrecede (ranking : Ranking) (a : Record) :
    tied (Record.mayPrecede ranking) a = a.drawsWith ranking := by
  funext b
  exact Bool.and_comm _ _

theorem arranged_rankRecords (ranking : Ranking) (records : List Record) :
    Arranged (Record.mayPrecede ranking) records (rankRecords ranking records) := by
  have hle : (fun a b => (compareRecords ranking a b).isLE) = Record.mayPrecede ranking := by
    funext a b
    exact isLE_compareRecords ranking a b
  rw [rankRecords, hle]
  exact (preorders_mayPrecede ranking).arranged_mergeSort records

theorem arranged_shown (config : Config) (ranking : Ranking) (records : List Record) :
    Arranged (Record.mayPrecede ranking) (config.shown ranking records)
      ((rankRecords ranking (config.listed ranking records)).filter (!·.isSummary)) :=
  (arranged_rankRecords ranking _).filter _

/-- Without shared cards there is always a list: the records that are to be shown, each on a card of
its own. None stands before one that outranks it, and if neither outranks the other they stand as
they came. All records compare in this way, so no other list is like that. -/
theorem arrange_eq_ok_alone_iff (hgrouping : ¬ config.groupNotifications) :
    Preorders (Record.mayPrecede ranking) ∧
    (∃ cards, arrange config ranking records = .ok cards) ∧
    ∀ cards, arrange config ranking records = .ok cards ↔
      ∃ shown : List Record, cards = shown.map Card.alone ∧
        shown.Perm (config.shown ranking records) ∧
        (shown.Pairwise fun a b => a.mayPrecede ranking b) ∧
        ∀ a ∈ config.shown ranking records, shown.filter (a.drawsWith ranking) =
          (config.shown ranking records).filter (a.drawsWith ranking) := by
  have hle := preorders_mayPrecede ranking
  have harranged := arranged_shown config ranking records
  simp only [← tied_mayPrecede]
  rw [arrange_of_not_grouping hgrouping]
  refine ⟨hle, ⟨_, rfl⟩, fun cards => ⟨?_, ?_⟩⟩
  · intro h
    cases h
    have hperm := (rankRecords_perm ranking (config.listed ranking records)).filter (!·.isSummary)
    exact ⟨_, rfl, hperm, harranged.ascending, fun a _ => harranged.ties a⟩
  · rintro ⟨shown, rfl, hperm, hpairs, hties⟩
    have hshown := hle.arranged_of_perm hperm hpairs hties
    rw [← hshown.mergeSort_eq hle, harranged.mergeSort_eq hle]

def signal (key : String) (category : Option Category) (isSummary : Bool) : Record where
  id := { key := key, package := "app", number := 0 }
  category := category
  isSummary := isSummary
  postTime := (Instant.of? 40 0).get (by decide)

/-- Records that only the last rule tells apart, or none, among such that an earlier rule picks. -/
def signals : List Record :=
  [signal "low" none false, signal "default" none false, signal "again" none false,
    signal "information" (some .carInformation) false, signal "summary" none true,
    signal "unranked" none false, signal "warning" (some .carWarning) false,
    signal "high" none false, signal "both" (some .carWarning) false,
    signal "emergency" (some .carEmergency) false, signal "least" none false]

def signalRanking : Ranking :=
  .ofList [("low", ⟨.low, 0⟩), ("default", ⟨.default, 5⟩), ("again", ⟨.default, 1⟩),
    ("summary", ⟨.high, 2⟩), ("warning", ⟨.low, 3⟩), ("high", ⟨.high, 4⟩), ("both", ⟨.high, 9⟩),
    ("emergency", ⟨.min, 6⟩), ("least", ⟨.min, 7⟩)]

def unshared : Config :=
  { groupNotifications := false }

theorem arrange_signals :
    ¬ unshared.groupNotifications ∧ arrange unshared signalRanking signals =
      .ok ([signal "emergency" (some .carEmergency) false, signal "both" (some .carWarning) false,
        signal "high" none false, signal "warning" (some .carWarning) false,
        signal "information" (some .carInformation) false, signal "default" none false,
        signal "again" none false, signal "low" none false, signal "least" none false,
        signal "unranked" none false].map Card.alone) := by
  have hgrouping : ¬ unshared.groupNotifications := Bool.false_ne_true
  obtain ⟨-, -, harrange⟩ := @arrange_eq_ok_alone_iff unshared signalRanking signals hgrouping
  refine ⟨hgrouping, (harrange _).2 ⟨_, rfl, ?_, ?_, ?_⟩⟩
  · decide +kernel
  · decide +kernel
  · decide +kernel

end Noticeboard
