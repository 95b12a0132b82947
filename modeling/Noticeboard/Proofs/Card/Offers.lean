import Noticeboard.Proofs.Card.Regrouping

namespace Noticeboard

namespace Card

/-- The first record settles the package, and a record of another one is refused. -/
def settle (c : Card) (r : Record) : Except PackageConflict Unit × Card :=
  match c.package with
  | none => (.ok (), { c with package := some r.package })
  | some package =>
    (if package = r.package then .ok () else .error ⟨c.identity, package, r.package⟩, c)

/-- What comes of a record that is offered, and the card as it is left. -/
def offer (c : Card) (r : Record) : Except PackageConflict Unit × Card :=
  match c.settle r with
  | (.ok (), c) => (.ok (), c.place r)
  | (.error err, c) => (.error err, c)

def after (c : Card) (offers : List Record) : Card :=
  offers.foldl (fun c r => (c.offer r).2) c

def taken (c : Card) : List Record → List Record
  | [] => []
  | r :: offers =>
    match c.offer r with
    | (.ok (), c) => r :: c.taken offers
    | (.error _, c) => c.taken offers

variable {c c' : Card} {r : Record} {err : PackageConflict} {identity : String}
  {held : List Record}

theorem offer_of_add_ok (h : c.add r = .ok c') : c.offer r = (.ok (), c') := by
  rw [offer, settle]
  rw [add] at h
  cases hpackage : c.package with
  | none =>
    rw [hpackage] at h
    cases h
    rfl
  | some package =>
    rw [hpackage] at h
    by_cases hsame : package = r.package
    · simp only [if_pos hsame] at h ⊢
      cases h
      rfl
    · simp only [if_neg hsame] at h
      cases h

theorem offer_of_add_error (h : c.add r = .error err) : c.offer r = (.error err, c) := by
  obtain ⟨package, hpackage, hother, rfl⟩ := add_eq_error h
  rw [offer, settle, hpackage]
  simp only [if_neg hother]

theorem exists_add_iff :
    (∃ c', c.add r = .ok c') ↔ c.package = none ∨ c.package = some r.package := by
  constructor
  · rintro ⟨c', h⟩
    exact (add_eq_ok h).1
  · intro h
    cases hadd : c.add r with
    | ok c' => exact ⟨c', rfl⟩
    | error err =>
      obtain ⟨package, hpackage, hother, -⟩ := add_eq_error hadd
      rw [hpackage] at h
      exact absurd (Option.some.inj (h.resolve_left (Option.some_ne_none _))) hother

structure Holds (c : Card) (identity : String) (held : List Record) : Prop where
  eq_ofMembers : c = ofMembers identity held
  package : ∀ a ∈ held, ∀ b ∈ held, a.package = b.package

theorem holds_empty (identity : String) : (empty identity).Holds identity [] where
  eq_ofMembers := (ofMembers_nil identity).symm
  package := List.forall_mem_nil _

theorem holds_single (identity : String) (r : Record) : (single identity r).Holds identity [r] where
  eq_ofMembers := by
    have hchildren : newestFirst [r] = [r] := List.mergeSort_singleton r
    rw [single]
    cases hr : r.isSummary with
    | true => simp [ofMembers, newestFirst, hr]
    | false => simp [ofMembers, hchildren, hr]
  package := by simp

namespace Holds

theorem shows (h : c.Holds identity held) : c.Shows held := by
  rw [h.eq_ofMembers]
  exact shows_ofMembers h.package

theorem package_eq (h : c.Holds identity held) : c.package = held.head?.map Record.package := by
  rw [h.eq_ofMembers]
  rfl

theorem children_eq (h : c.Holds identity held) :
    c.children = newestFirst (held.filter (!·.isSummary)) := by
  rw [h.eq_ofMembers]
  rfl

theorem package_eq_none_iff (h : c.Holds identity held) : c.package = none ↔ held = [] := by
  rw [h.package_eq, Option.map_eq_none_iff, List.head?_eq_none_iff]

theorem records_eq_nil_iff (h : c.Holds identity held) : c.records = [] ↔ held = [] := by
  constructor
  · intro hnil
    by_contra hheld
    exact h.shows.records_ne_nil hheld hnil
  · intro hheld
    rw [List.eq_nil_iff_forall_not_mem]
    intro r hr
    exact List.not_mem_nil (hheld ▸ h.shows.mem hr)

theorem add (h : c.Holds identity held) (hadd : c.add r = .ok c') :
    c'.Holds identity (held ++ [r]) := by
  have hpackage : ∀ a ∈ held ++ [r], a.package = r.package := by
    intro a ha
    obtain ha | ha := List.mem_append.1 ha
    · have hallowed := (add_eq_ok hadd).1
      rw [h.shows.package a ha] at hallowed
      exact Option.some.inj (hallowed.resolve_left (Option.some_ne_none _))
    · rw [List.mem_singleton.1 ha]
  refine ⟨?_, fun a ha b hb => (hpackage a ha).trans (hpackage b hb).symm⟩
  rw [h.eq_ofMembers] at hadd
  exact add_ofMembers hadd

/-- A record that the card takes comes to those that it holds, and one that it refuses does not. -/
theorem after (h : c.Holds identity held) (offers : List Record) :
    (c.after offers).Holds identity (held ++ c.taken offers) := by
  induction offers generalizing c held with
  | nil =>
    rw [taken, List.append_nil]
    exact h
  | cons r offers ih =>
    rw [Card.after, List.foldl_cons, taken]
    cases hadd : c.add r with
    | ok c' =>
      rw [offer_of_add_ok hadd, List.append_cons]
      exact ih (h.add hadd)
    | error err =>
      rw [offer_of_add_error hadd]
      exact ih h

end Holds

/-- A card that began with no record or with one, and was offered others since then, takes a record
just if it holds none or its first one is of the same package, and if it does not it stays as it is.
It has the package of what it holds, its header is the last summary that it took, and its children
are the other records that it took, sorted by time as if they had been sorted once. -/
theorem shows_taken (identity : String) (first : Option Record) (offers : List Record) :
    let start := first.elim (empty identity) (single identity)
    let c := start.after offers
    let held := first.toList ++ start.taken offers
    (∀ r, (∃ c', c.add r = .ok c') ↔
      c.records = [] ∨ held.head?.map Record.package = some r.package) ∧
    (∀ r c', c.add r = .ok c' → c.offer r = (.ok (), c')) ∧
    (∀ r err, c.add r = .error err → c.offer r = (.error err, c)) ∧
    (∀ r ∈ c.records, c.package = some r.package) ∧
    (c.package.isSome ↔ c.records ≠ []) ∧
    c.identity = identity ∧ c.Shows held ∧
    c.children = newestFirst (held.filter (!·.isSummary)) := by
  intro start c held
  have hstart : start.Holds identity first.toList := by
    cases first with
    | none => exact holds_empty identity
    | some r => exact holds_single identity r
  have h : c.Holds identity held := hstart.after offers
  refine ⟨?_, fun r c' => offer_of_add_ok, fun r err => offer_of_add_error, ?_, ?_, ?_, h.shows,
    h.children_eq⟩
  · intro r
    rw [exists_add_iff, h.package_eq_none_iff, h.records_eq_nil_iff, h.package_eq]
  · intro r hr
    exact h.shows.package r (h.shows.mem hr)
  · rw [Option.isSome_iff_ne_none, Ne, Ne, h.package_eq_none_iff, h.records_eq_nil_iff]
  · rw [h.eq_ofMembers]
    rfl

end Card

end Noticeboard
