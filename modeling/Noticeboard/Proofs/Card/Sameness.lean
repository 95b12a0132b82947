import Mathlib.Data.List.Forall2
import Noticeboard.Card.Basic

namespace Noticeboard

section

variable {α β : Type} {f : α → β}

theorem option_map_eq_map_iff {x y : Option α} :
    x.map f = y.map f ↔ (x = none ∧ y = none) ∨ ∃ a b, x = some a ∧ y = some b ∧ f a = f b := by
  cases x with
  | none => cases y <;> simp
  | some a => cases y <;> simp

theorem list_map_eq_map_iff_getElem {xs ys : List α} :
    xs.map f = ys.map f ↔ xs.length = ys.length ∧
      ∀ i (h : i < xs.length) (h' : i < ys.length), f xs[i] = f ys[i] := by
  rw [← List.forall₂_eq_eq_eq, List.forall₂_map_left_iff, List.forall₂_map_right_iff,
    List.forall₂_iff_get]
  rfl

/-- The pairs alone would not tell a list from a longer one that begins like it. -/
theorem list_map_eq_map_iff_zip {xs ys : List α} :
    xs.map f = ys.map f ↔ xs.length = ys.length ∧ ∀ p ∈ xs.zip ys, f p.1 = f p.2 := by
  rw [← List.forall₂_eq_eq_eq, List.forall₂_map_left_iff, List.forall₂_map_right_iff,
    List.forall₂_iff_zip, Prod.forall]

end

/-- What an id names, however often that is posted: the id without its key. -/
structure Notification where
  package : String
  tag : Option String
  number : Int32
  user : Int32

namespace RecordId

def notification (a : RecordId) : Notification where
  package := a.package
  tag := a.tag
  number := a.number
  user := a.user

theorem coincides_iff {a b : RecordId} :
    a.coincides b = true ↔ a.notification = b.notification := by
  rw [coincides, notification, notification, Notification.mk.injEq]
  simp only [Bool.and_eq_true, beq_iff_eq]
  constructor
  · rintro ⟨⟨⟨hnumber, huser⟩, hpackage⟩, htag⟩
    exact ⟨hpackage, htag, hnumber, huser⟩
  · rintro ⟨hpackage, htag, hnumber, huser⟩
    exact ⟨⟨⟨hnumber, huser⟩, hpackage⟩, htag⟩

end RecordId

def Record.notification (r : Record) : Notification :=
  r.id.notification

namespace Card

/-- Both cards are of one package, their headers are both missing or name one notification, and they
have as many children, each of which names the same notification as the one in its place. -/
structure Coincides (a b : Card) : Prop where
  package : a.package = b.package
  header : (a.header = none ∧ b.header = none) ∨
    ∃ x y, a.header = some x ∧ b.header = some y ∧ x.notification = y.notification
  count : a.children.length = b.children.length
  child : ∀ i (h : i < a.children.length) (h' : i < b.children.length),
    a.children[i].notification = b.children[i].notification

/-- What stays of a card while its records are posted again. -/
structure Outline where
  package : Option String
  header : Option Notification
  children : List Notification

def outline (c : Card) : Outline where
  package := c.package
  header := c.header.map Record.notification
  children := c.children.map Record.notification

variable {a b : Card}

theorem coincides_iff : a.Coincides b ↔ a.outline = b.outline := by
  rw [outline, outline, Outline.mk.injEq, option_map_eq_map_iff, list_map_eq_map_iff_getElem]
  constructor
  · intro h
    exact ⟨h.package, h.header, h.count, h.child⟩
  · rintro ⟨hpackage, hheader, hcount, hchild⟩
    exact ⟨hpackage, hheader, hcount, hchild⟩

theorem same_iff : a.same b = true ↔ a.outline = b.outline := by
  rw [outline, outline, Outline.mk.injEq, list_map_eq_map_iff_zip, same]
  simp only [Bool.and_eq_true, beq_iff_eq, List.all_eq_true, RecordId.coincides_iff, and_assoc]
  -- Both sides now say the same of the package and of the children, so the headers are left.
  refine and_congr_right fun _ => ?_
  rw [and_left_comm]
  refine and_congr ?_ Iff.rfl
  cases a.header with
  | none => cases b.header <;> simp
  | some x =>
    cases b.header with
    | none => simp
    | some y => simp [RecordId.coincides_iff, Record.notification]

theorem sameOption_iff {a b : Option Card} :
    sameOption a b = true ↔ a.map outline = b.map outline := by
  cases a with
  | none => cases b <;> simp [sameOption]
  | some a =>
    cases b with
    | none => simp [sameOption]
    | some b => rw [sameOption, same_iff, Option.map_some, Option.map_some, Option.some.injEq]

theorem equivalence_sameOption : Equivalence fun a b => sameOption a b = true where
  refl _ := sameOption_iff.2 rfl
  symm h := sameOption_iff.2 (sameOption_iff.1 h).symm
  trans h h' := sameOption_iff.2 ((sameOption_iff.1 h).trans (sameOption_iff.1 h'))

variable {Address : Type} [DecidableEq Address] (card : Address → Card)

/-- The comparison by address. Where both are one, the card there is not read. -/
def sameAt : Option Address → Option Address → Bool
  | none, none => true
  | some p, some q => if p = q then true else (card p).same (card q)
  | _, _ => false

theorem sameAt_eq (p q : Option Address) :
    sameAt card p q = sameOption (p.map card) (q.map card) := by
  cases p with
  | none => cases q <;> rfl
  | some p =>
    cases q with
    | none => rfl
    | some q =>
      by_cases h : p = q
      · rw [sameAt, if_pos h, h]
        exact (equivalence_sameOption.refl _).symm
      · rw [sameAt, if_neg h]
        rfl

/-- Two cards, each of which may be missing, are the same just if both are missing or they coincide.
This is an equivalence, and whether two equal cards are one at one address or two at two makes no
difference. -/
theorem sameOption_coincides :
    (∀ a b : Option Card, sameOption a b = true ↔
      (a = none ∧ b = none) ∨ ∃ c d, a = some c ∧ b = some d ∧ c.Coincides d) ∧
    Equivalence (fun a b => sameOption a b = true) ∧
    ∀ p q : Option Address, sameAt card p q = sameOption (p.map card) (q.map card) := by
  refine ⟨?_, equivalence_sameOption, sameAt_eq card⟩
  intro a b
  rw [sameOption_iff, option_map_eq_map_iff]
  simp only [coincides_iff]

end Card

end Noticeboard
