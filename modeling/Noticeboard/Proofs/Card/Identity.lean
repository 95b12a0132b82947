import Noticeboard.Proofs.Card.Conflicts

namespace Noticeboard

/-- The bar between two texts is moved to the right, to a bar inside the second text. -/
def MovesBar (x y x' y' : String) : Prop :=
  ∃ m, x' = x ++ "|" ++ m ∧ y = m ++ "|" ++ y'

def bars (s : String) : Nat :=
  s.toList.count '|'

theorem bars_append (s t : String) : bars (s ++ t) = bars s + bars t := by
  rw [bars, String.toList_append, List.count_append]
  rfl

theorem bars_bar : bars "|" = 1 :=
  rfl

theorem MovesBar.bars_lt {x y x' y' : String} (h : MovesBar x y x' y') :
    bars x < bars x' ∧ bars y' < bars y := by
  obtain ⟨m, rfl, rfl⟩ := h
  simp only [bars_append, bars_bar]
  omega

theorem append_cons_eq_append_cons_iff {α : Type} {a : α} {xs ys xs' ys' : List α} :
    xs ++ a :: ys = xs' ++ a :: ys' ↔
      (xs = xs' ∧ ys = ys') ∨ (∃ ms, xs' = xs ++ a :: ms ∧ ys = ms ++ a :: ys') ∨
        ∃ ms, xs = xs' ++ a :: ms ∧ ys' = ms ++ a :: ys := by
  induction xs generalizing xs' with
  | nil =>
    cases xs' with
    | nil => simp
    | cons x xs' => simp [eq_comm]
  | cons x xs ih =>
    cases xs' with
    | nil => simp [eq_comm]
    | cons x' xs' =>
      simp only [List.cons_append, List.cons.injEq, ih]
      by_cases hx : x = x'
      · simp [hx]
      · simp [hx, Ne.symm hx]

/-- Two pairs of texts look the same with bars between them just if they are the same, or one bar
stands further to the right. -/
theorem barred_eq_barred_iff {x y x' y' : String} :
    x ++ "|" ++ y = x' ++ "|" ++ y' ↔
      (x = x' ∧ y = y') ∨ MovesBar x y x' y' ∨ MovesBar x' y' x y := by
  have hmoves : ∀ x y x' y' : String, MovesBar x y x' y' ↔
      ∃ ms, x'.toList = x.toList ++ '|' :: ms ∧ y.toList = ms ++ '|' :: y'.toList := by
    intro x y x' y'
    constructor
    · rintro ⟨m, rfl, rfl⟩
      exact ⟨m.toList, by simp, by simp⟩
    · rintro ⟨ms, hx, hy⟩
      refine ⟨String.ofList ms, String.toList_inj.1 ?_, String.toList_inj.1 ?_⟩
      · simp [hx]
      · simp [hy]
  have hjoin : ∀ x y : String, (x ++ "|" ++ y).toList = x.toList ++ '|' :: y.toList := by
    intro x y
    simp
  rw [← String.toList_inj, hjoin, hjoin, append_cons_eq_append_cons_iff, String.toList_inj,
    String.toList_inj, hmoves, hmoves]

theorem bars_repr_nat (n : Nat) : bars n.repr = 0 := by
  rw [bars, Nat.toList_repr, List.count_eq_zero]
  intro hmem
  have hdigit := Nat.isDigit_of_mem_toDigits (by decide) (by decide) hmem
  exact absurd hdigit (by decide)

theorem bars_toString (n : Int32) : bars (toString n) = 0 := by
  change bars n.toInt.repr = 0
  cases n.toInt with
  | ofNat m => exact bars_repr_nat m
  | negSucc m =>
    change bars ("-" ++ m.succ.repr) = 0
    rw [bars_append, bars_repr_nat]
    rfl

namespace Record

/-- What stands before the key in the identity of a record that has a card of its own. -/
def label (r : Record) : String :=
  "|".intercalate [toString r.id.user, r.package, toString r.id.number, r.id.tag.getD ""]

theorem ownIdentity_eq (r : Record) : r.ownIdentity = "u:" ++ (r.label ++ "|" ++ r.key) := by
  have happend := String.intercalate_append_of_ne_nil (s := "|")
    (l := [toString r.id.user, r.package, toString r.id.number, r.id.tag.getD ""]) (m := [r.key])
    (List.cons_ne_nil _ _) (List.cons_ne_nil _ _)
  rw [String.intercalate_singleton] at happend
  rw [ownIdentity, label, ← happend]
  rfl

theorem bars_label (r : Record) :
    bars r.label = bars r.package + bars (r.id.tag.getD "") + 3 := by
  simp only [label, String.intercalate_cons_cons, String.intercalate_singleton, bars_append,
    bars_bar, bars_toString]
  omega

def Barless (r : Record) : Prop :=
  bars r.package = 0 ∧ bars (r.id.tag.getD "") = 0

end Record

namespace SharingRule

variable (p : SharingRule) {a b : Record}

def group? (r : Record) : Option String :=
  if p.allows r then r.groupKey else none

theorem identity_eq (r : Record) :
    p.identity r =
      (p.group? r).elim ("u:" ++ (r.label ++ "|" ++ r.key)) fun group =>
        "g:" ++ (group ++ "|" ++ r.package) := by
  rw [identity, group?]
  cases hgroup : r.groupKey with
  | none =>
    rw [ite_self]
    exact r.ownIdentity_eq
  | some group =>
    by_cases hr : p.allows r
    · simp only [hr, if_true, Option.elim_some, String.append_assoc]
    · simp only [hr, if_false, Option.elim_none, Bool.false_eq_true, r.ownIdentity_eq]

/-- Both records declare one group, are of one package, and may share a card. -/
def Together (a b : Record) : Prop :=
  ∃ group, a.groupKey = some group ∧ b.groupKey = some group ∧ a.package = b.package ∧
    p.allows a ∧ p.allows b

/-- The identities of two records are one text that is read in two ways. -/
def Confuses (a b : Record) : Prop :=
  match p.group? a, p.group? b with
  | some g, some g' => MovesBar g a.package g' b.package ∨ MovesBar g' b.package g a.package
  | none, none => MovesBar a.label a.key b.label b.key ∨ MovesBar b.label b.key a.label a.key
  | _, _ => False

theorem together_iff (a b : Record) :
    p.Together a b ↔
      ∃ group, p.group? a = some group ∧ p.group? b = some group ∧ a.package = b.package := by
  simp only [Together, group?, Option.ite_none_right_eq_some]
  tauto

variable {p}

theorem group_ne_own (s t : String) : "g:" ++ s ≠ "u:" ++ t := by
  intro h
  rw [← String.toList_inj, String.toList_append, String.toList_append] at h
  exact absurd (List.head_eq_of_cons_eq h) (by decide)

theorem identity_eq_iff (hkey : a.key ≠ b.key) :
    p.identity a = p.identity b ↔ p.Together a b ∨ p.Confuses a b := by
  rw [identity_eq, identity_eq, together_iff, Confuses]
  cases p.group? a with
  | none =>
    cases p.group? b with
    | none =>
      simp only [Option.elim_none, String.append_right_inj, barred_eq_barred_iff]
      simp [hkey]
    | some g' => simp [(group_ne_own _ _).symm]
  | some g =>
    cases p.group? b with
    | none => simp [group_ne_own]
    | some g' =>
      simp only [Option.elim_some, String.append_right_inj, barred_eq_barred_iff]
      simp [eq_comm (a := g)]

theorem Confuses.not_together (h : p.Confuses a b) : ¬ p.Together a b := by
  rw [together_iff]
  rintro ⟨g, ha, hb, hpackage⟩
  rw [Confuses, ha, hb, hpackage] at h
  have hlt := h.elim MovesBar.bars_lt MovesBar.bars_lt
  exact Nat.lt_irrefl _ hlt.1

theorem Confuses.not_barless (h : p.Confuses a b) (ha : a.Barless) : ¬ b.Barless := by
  intro hb
  have hpackages : bars a.package = bars b.package := ha.1.trans hb.1.symm
  have hlabels : bars a.label = bars b.label := by
    rw [Record.bars_label, Record.bars_label, ha.1, ha.2, hb.1, hb.2]
  rw [Confuses] at h
  split at h
  · obtain h | h := h
    · exact Nat.ne_of_gt h.bars_lt.2 hpackages
    · exact Nat.ne_of_lt h.bars_lt.2 hpackages
  · obtain h | h := h
    · exact Nat.ne_of_lt h.bars_lt.1 hlabels
    · exact Nat.ne_of_gt h.bars_lt.1 hlabels
  · exact h

/-- The identity tells which records are of one group, just if it cannot be read in two ways. Only
then is a record that may not share a card alone on its own, and only records whose identities are
confused can keep the cards from being made. -/
theorem identity_tells_group_iff (p : SharingRule) :
    (∀ a b : Record, a.key ≠ b.key →
      ((p.identity a = p.identity b ↔ p.Together a b) ↔ ¬ p.Confuses a b) ∧
      (¬ p.allows a → (p.identity a = p.identity b ↔ p.Confuses a b)) ∧
      (a.Barless → b.Barless → ¬ p.Confuses a b)) ∧
    ∀ records : List Record, (records.map Record.key).Nodup →
      ((∃ err, group p records = .error err) ↔
        ∃ a ∈ records, ∃ b ∈ records, p.Confuses a b ∧ a.package ≠ b.package) := by
  constructor
  · intro a b hkey
    rw [identity_eq_iff hkey]
    refine ⟨⟨?_, ?_⟩, ?_, ?_⟩
    · intro htells hconfuses
      exact hconfuses.not_together (htells.1 (.inr hconfuses))
    · intro hclear
      exact or_iff_left hclear
    · intro hforbidden
      have halone : ¬ p.Together a b := by
        rintro ⟨-, -, -, -, hallowed, -⟩
        exact hforbidden hallowed
      exact or_iff_right halone
    · intro ha hb hconfuses
      exact hconfuses.not_barless ha hb
  · intro records hnodup
    rw [group_fails_iff]
    refine exists_congr fun a => and_congr_right fun ha => ?_
    refine exists_congr fun b => and_congr_right fun hb => ?_
    rw [and_congr_left_iff]
    intro hpackage
    have hkey : a.key ≠ b.key := by
      intro hsame
      exact hpackage (congrArg Record.package (List.inj_on_of_nodup_map hnodup ha hb hsame))
    have halone : ¬ p.Together a b := by
      rintro ⟨-, -, -, hsame, -⟩
      exact hpackage hsame
    rw [identity_eq_iff hkey]
    exact or_iff_right halone

def systemAlone : SharingRule where
  neverShare := [.system]

/-- Neither may share a card. The tag and the key of the first are read as package, number and tag
of the second. -/
def firstAlarm : Record where
  id := { key := "t|y", package := "p", tag := some "1", number := 1 }
  category := some .system
  postTime := (Instant.of? 1767225600 0).get (by decide)

def secondAlarm : Record :=
  { firstAlarm with id := { key := "y", package := "p|1", tag := some "t", number := 1 } }

theorem alarms_confused :
    firstAlarm.key ≠ secondAlarm.key ∧
    ¬ (systemAlone.identity firstAlarm = systemAlone.identity secondAlarm ↔
      systemAlone.Together firstAlarm secondAlarm) ∧
    systemAlone.allows firstAlarm = false ∧
    group systemAlone [firstAlarm, secondAlarm] =
      .error ⟨"u:0|p|1|1|t|y", "p", "p|1"⟩ := by
  have hsame : systemAlone.identity firstAlarm = systemAlone.identity secondAlarm := by
    decide +kernel
  refine ⟨by decide, ?_, by decide, by decide +kernel⟩
  intro htells
  obtain ⟨group, hgroup, -⟩ := htells.1 hsame
  cases hgroup

end SharingRule

end Noticeboard
