import Noticeboard.Proofs.Json.Token

namespace Noticeboard.Json

/-- A value that its text says all of: numbers are integers that fit, nothing is broken, and
brackets nest at most `depth` deep. -/
inductive Plain : Nat → Json → Prop where
  | null {depth : Nat} : Plain depth null
  | bool {depth : Nat} (b : Bool) : Plain depth (bool b)
  | int {depth : Nat} {n : Int} (h : isInt64 n = true) : Plain depth (int n)
  | str {depth : Nat} (s : String) : Plain depth (str s)
  | arr {depth : Nat} {items : List Json} (h : ∀ item ∈ items, Plain depth item) :
    Plain (depth + 1) (arr items)
  | obj {depth : Nat} {members : List (String × Json)}
    (h : ∀ member ∈ members, Plain depth member.2) : Plain (depth + 1) (obj members)

variable {depth : Nat}

theorem areSound_of_forall {items : List Json} (h : ∀ item ∈ items, item.isSound = true) :
    areSound items = true := by
  induction items with
  | nil => rfl
  | cons item items ih =>
    rw [List.forall_mem_cons] at h
    rw [areSound, h.1, ih h.2]
    rfl

theorem membersAreSound_of_forall {members : List (String × Json)}
    (h : ∀ member ∈ members, member.2.isSound = true) : membersAreSound members = true := by
  induction members with
  | nil => rfl
  | cons member members ih =>
    rw [List.forall_mem_cons] at h
    rw [membersAreSound, h.1, ih h.2]
    rfl

theorem Plain.isSound {j : Json} (h : Plain depth j) : j.isSound = true := by
  induction h with
  | null => rfl
  | bool _ => rfl
  | int _ => rfl
  | str _ => rfl
  | arr _ ih => exact areSound_of_forall ih
  | obj _ ih => exact membersAreSound_of_forall ih

theorem isInt64_iff {n : Int} :
    isInt64 n = true ↔ -9223372036854775808 ≤ n ∧ n < 18446744073709551616 := by
  rw [isInt64, Bool.and_eq_true, decide_eq_true_eq, decide_eq_true_eq]
  rfl

theorem plain_int32 (n : Int32) : Plain depth (int n.toInt) := by
  have hlow := n.le_toInt
  have hhigh := n.toInt_lt
  exact .int (isInt64_iff.mpr (by omega))

theorem plain_uint32 (n : UInt32) : Plain depth (nat n.toNat) := by
  have h := n.toNat_lt
  exact .int (isInt64_iff.mpr (by omega))

theorem plain_uint64 (n : UInt64) : Plain depth (nat n.toNat) := by
  have h := n.toNat_lt
  exact .int (isInt64_iff.mpr (by omega))

variable {α : Type} {write : α → Json} {o : Option α}

theorem plain_ofOption (h : ∀ a ∈ o, Plain depth (write a)) : Plain depth (ofOption write o) := by
  cases o with
  | none => exact .null
  | some a => exact h a rfl

theorem plain_present (name : String) (h : ∀ a ∈ o, Plain depth (write a)) :
    ∀ member ∈ present name write o, Plain depth member.2 := by
  cases o with
  | none => exact nofun
  | some a => exact List.forall_mem_singleton.mpr (h a rfl)

theorem plain_list {as : List α} (h : ∀ a ∈ as, Plain depth (write a)) :
    Plain (depth + 1) (arr (as.map write)) :=
  .arr (List.forall_mem_map.mpr h)

theorem itemTexts_eq_map (items : List Json) : itemTexts items = items.map text := by
  induction items with
  | nil => rfl
  | cons item items ih => rw [itemTexts, ih, List.map_cons]

def memberText (m : String × Json) : String :=
  quote m.1 ++ ":" ++ text m.2

theorem memberTexts_eq_map (members : List (String × Json)) :
    memberTexts members = members.map memberText := by
  induction members with
  | nil => rfl
  | cons member members ih => rw [memberTexts, ih, List.map_cons, memberText]

theorem toList_intercalate_cons (s : String) (ss : List String) :
    (",".intercalate (s :: ss)).toList = s.toList ++ ss.flatMap fun s => ',' :: s.toList := by
  induction ss generalizing s with
  | nil => rw [String.intercalate_singleton, List.flatMap_nil, List.append_nil]
  | cons t ss ih =>
    rw [String.intercalate_cons_cons, String.toList_append, String.toList_append, ih,
      List.flatMap_cons, List.append_assoc]
    rfl

theorem toList_text_arr (items : List Json) :
    (text (arr items)).toList =
      '[' :: ((",".intercalate (items.map text)).toList ++ [']']) := by
  rw [text, itemTexts_eq_map]
  simp only [String.toList_append]
  rfl

theorem toList_text_obj (members : List (String × Json)) :
    (text (obj members)).toList =
      '\x7b' :: ((",".intercalate (members.map memberText)).toList ++ ['\x7d']) := by
  rw [text, memberTexts_eq_map]
  simp only [String.toList_append]
  rfl

theorem isSpace_of_startsNumber {c : Char} (hc : startsNumber c = true) : isSpace c = false := by
  simp only [isSpace, Bool.or_eq_false_iff, beq_eq_false_iff_ne]
  exact ⟨⟨⟨ne_of_startsNumber hc rfl, ne_of_startsNumber hc rfl⟩, ne_of_startsNumber hc rfl⟩,
    ne_of_startsNumber hc rfl⟩

theorem Plain.exists_text_eq_cons {j : Json} (h : Plain depth j) :
    ∃ c cs, j.text.toList = c :: cs ∧ isSpace c = false ∧ c ≠ ']' := by
  cases h with
  | null => exact ⟨'n', _, rfl, rfl, by decide⟩
  | bool b =>
    cases b with
    | false => exact ⟨'f', _, rfl, rfl, by decide⟩
    | true => exact ⟨'t', _, rfl, rfl, by decide⟩
  | @int _ n _ =>
    obtain ⟨c, cs, hs, hc⟩ := exists_toString_eq_cons n
    exact ⟨c, cs, by rw [text, hs], isSpace_of_startsNumber hc, ne_of_startsNumber hc rfl⟩
  | str s => exact ⟨'"', _, toList_quote s, rfl, by decide⟩
  | arr _ => exact ⟨'[', _, toList_text_arr _, rfl, by decide⟩
  | obj _ => exact ⟨'\x7b', _, toList_text_obj _, rfl, by decide⟩

theorem Plain.skipSpaces_text {j : Json} (h : Plain depth j) (rest : List Char) :
    skipSpaces (j.text.toList ++ rest) = j.text.toList ++ rest := by
  obtain ⟨c, cs, hs, hc, -⟩ := h.exists_text_eq_cons
  rw [hs, List.cons_append, skipSpaces, List.dropWhile_cons_of_neg (by rw [hc]; exact nofun)]

theorem scalar_eq_number {c : Char} (hc : startsNumber c = true) (s : List Char) :
    scalar (c :: s) = number (c :: s) := by
  rw [scalar.eq_def]
  split
  · next h => exact absurd (List.cons.inj h).1 (ne_of_startsNumber hc rfl)
  · next h => exact absurd (List.cons.inj h).1 (ne_of_startsNumber hc rfl)
  · next h => exact absurd (List.cons.inj h).1 (ne_of_startsNumber hc rfl)
  · next h => exact absurd (List.cons.inj h).1 (ne_of_startsNumber hc rfl)
  · rfl

theorem ofOpening?_of_startsNumber {c : Char} (hc : startsNumber c = true) (s : List Char) :
    Bracket.ofOpening? (c :: s) = none := by
  rw [Bracket.ofOpening?.eq_def]
  split
  · next h => exact absurd (List.cons.inj h).1 (ne_of_startsNumber hc rfl)
  · next h => exact absurd (List.cons.inj h).1 (ne_of_startsNumber hc rfl)
  · rfl

theorem value_of_scalar {s : List Char} (h : Bracket.ofOpening? s = none) :
    value depth s = scalar s := by
  cases depth with
  | zero => rw [value, skipped, h]
  | succ depth => rw [value, h]

theorem value_int {n : Int} (h : isInt64 n = true) {rest : List Char} (hrest : Stops rest) :
    value depth ((text (int n)).toList ++ rest) = some (int n, rest) := by
  obtain ⟨c, cs, hs, hc⟩ := exists_toString_eq_cons n
  have hnumber := number_int hrest h
  rw [hs] at hnumber
  rw [text, hs, List.cons_append, value_of_scalar (ofOpening?_of_startsNumber hc _),
    scalar_eq_number hc]
  exact hnumber

theorem value_str (s : String) (rest : List Char) :
    value depth ((text (str s)).toList ++ rest) = some (str s, rest) := by
  rw [text, toList_quote, List.cons_append, value_of_scalar rfl, List.append_assoc, scalar]
  simp only [List.singleton_append, stringRest_escaped, Option.map_some, Option.getD_some]

section

variable {α β : Type} {bracket : Bracket} {item : Reads β}

/-- A text that a reader takes for a value if it stands in brackets. -/
structure Enclosed (bracket : Bracket) (item : Reads β) (s : List Char) (b : β) : Prop where
  begins : ∃ c cs, s = c :: cs ∧ isSpace c = false ∧ c ≠ bracket.closing
  takes : ∀ rest, Stops rest → item (s ++ rest) = some (b, rest)

theorem Enclosed.skipSpaces_append {s : List Char} {b : β} (h : Enclosed bracket item s b)
    (rest : List Char) : skipSpaces (s ++ rest) = s ++ rest := by
  obtain ⟨c, cs, rfl, hc, -⟩ := h.begins
  exact List.dropWhile_cons_of_neg (hc ▸ Bool.false_ne_true)

theorem Enclosed.head?_ne {s : List Char} {b : β} (h : Enclosed bracket item s b)
    (rest : List Char) : (s ++ rest).head? ≠ some bracket.closing := by
  obtain ⟨c, cs, rfl, -, hc⟩ := h.begins
  exact fun hhead => hc (Option.some.inj hhead)

theorem stops_separated (bracket : Bracket) (as : List α) (f : α → List Char)
    (rest : List Char) : Stops (as.flatMap (fun a => ',' :: f a) ++ bracket.closing :: rest) := by
  intro d hd
  cases as with
  | nil =>
    obtain rfl := Option.mem_some_iff.mp hd
    cases bracket with
    | square => exact .inr (.inl rfl)
    | curly => exact .inr (.inr rfl)
  | cons a as =>
    obtain rfl := Option.mem_some_iff.mp hd
    exact .inl rfl

theorem length_lt_separated (as : List α) (f : α → List Char) (s : List Char) (c : Char)
    (rest : List Char) :
    as.length < (s ++ (as.flatMap (fun a => ',' :: f a) ++ c :: rest)).length := by
  have hcommas : as.length ≤ (as.flatMap fun a => ',' :: f a).length := by
    induction as with
    | nil => exact Nat.le_refl 0
    | cons a as ih =>
      rw [List.flatMap_cons, List.length_append, List.length_cons, List.length_cons]
      omega
  simp only [List.length_append, List.length_cons]
  omega

variable {f : α → List Char} {g : α → β} {as : List α}

theorem sequenceRest_separated (h : ∀ a ∈ as, Enclosed bracket item (f a) (g a)) {fuel : Nat}
    (hfuel : as.length < fuel) (rest : List Char) :
    sequenceRest bracket item fuel
      (as.flatMap (fun a => ',' :: f a) ++ bracket.closing :: rest) = some (as.map g, rest) := by
  induction as generalizing fuel with
  | nil =>
    obtain ⟨fuel, rfl⟩ := Nat.exists_eq_add_one_of_ne_zero (Nat.ne_zero_of_lt hfuel)
    cases bracket with
    | square => rfl
    | curly => rfl
  | cons a as ih =>
    obtain ⟨fuel, rfl⟩ := Nat.exists_eq_add_one_of_ne_zero (Nat.ne_zero_of_lt hfuel)
    rw [List.forall_mem_cons] at h
    have hcomma (s : List Char) : skipSpaces (',' :: s) = ',' :: s := rfl
    have hopen : ',' ≠ bracket.closing := by
      cases bracket with
      | square => decide
      | curly => decide
    have hitem := h.1.takes _ (stops_separated bracket as f rest)
    rw [List.flatMap_cons, List.cons_append, List.cons_append, sequenceRest, hcomma]
    simp only [if_neg hopen, if_true, List.append_assoc, h.1.skipSpaces_append, hitem,
      Option.bind_eq_bind, Option.bind_some, ih h.2 (Nat.lt_of_succ_lt_succ hfuel),
      Option.pure_def, List.map_cons]

theorem sequence_intercalate {f : α → String}
    (h : ∀ a ∈ as, Enclosed bracket item (f a).toList (g a)) (rest : List Char) :
    sequence bracket item ((",".intercalate (as.map f)).toList ++ bracket.closing :: rest) =
      some (as.map g, rest) := by
  cases as with
  | nil =>
    cases bracket with
    | square => rfl
    | curly => rfl
  | cons a as =>
    rw [List.forall_mem_cons] at h
    have hitem := h.1.takes _ (stops_separated bracket as (fun a => (f a).toList) rest)
    have hfuel :=
      length_lt_separated as (fun a => (f a).toList) (f a).toList bracket.closing rest
    rw [List.map_cons, toList_intercalate_cons, List.flatMap_map, List.append_assoc, sequence,
      h.1.skipSpaces_append]
    simp only [if_neg (h.1.head?_ne _), hitem, sequenceRest_separated h.2 hfuel,
      Option.bind_eq_bind, Option.bind_some, Option.pure_def, List.map_cons]

end

def Takes (item : Reads Json) (j : Json) : Prop :=
  ∀ rest, Stops rest → item (j.text.toList ++ rest) = some (j, rest)

variable {item : Reads Json}

theorem Plain.enclosed {j : Json} (h : Plain depth j) (htakes : Takes item j) :
    Enclosed .square item j.text.toList j :=
  ⟨h.exists_text_eq_cons, htakes⟩

theorem member_memberText {m : String × Json} (hplain : Plain depth m.2) (h : Takes item m.2) :
    Enclosed .curly (member item) (memberText m).toList (some m.1, m.2) := by
  have htext (rest : List Char) : (memberText m).toList ++ rest = '"' ::
      (escaped m.1.toList ++ '"' :: (':' :: (m.2.text.toList ++ rest))) := by
    simp only [memberText, String.toList_append, toList_quote, List.append_assoc, List.cons_append]
    rfl
  have hcolon (s : List Char) : skipSpaces (':' :: s) = ':' :: s := rfl
  refine ⟨⟨'"', _, by rw [← List.append_nil (memberText m).toList, htext], rfl, by decide⟩, ?_⟩
  intro rest hrest
  rw [member, htext, memberName]
  simp only [stringRest_escaped, hcolon, hplain.skipSpaces_text, h rest hrest, Option.bind_eq_bind,
    Option.bind_some, Option.pure_def]

theorem named?_some (ms : List (String × Json)) :
    named? (ms.map fun m => (some m.1, m.2)) = some ms := by
  induction ms with
  | nil => rfl
  | cons m ms ih =>
    rw [List.map_cons, named?, List.mapM_cons]
    rw [named?] at ih
    simp only [ih, Option.map_some, Option.bind_eq_bind, Option.bind_some, Option.pure_def]

theorem Plain.takes_value {j : Json} (h : Plain depth j) : Takes (value depth) j := by
  intro rest hrest
  induction h generalizing rest with
  | null => exact value_of_scalar rfl
  | bool b => cases b <;> exact value_of_scalar rfl
  | int h => exact value_int h hrest
  | str s => exact value_str s rest
  | @arr depth items h ih =>
    have hitems : sequence .square (value depth)
        ((",".intercalate (items.map text)).toList ++ ']' :: rest) = some (items.map id, rest) :=
      sequence_intercalate (fun j hj => (h j hj).enclosed (ih j hj)) rest
    rw [toList_text_arr, List.cons_append, List.append_assoc, value]
    simp only [Bracket.ofOpening?, List.singleton_append, hitems, Option.map_some, List.map_id]
  | @obj depth ms h ih =>
    have hmembers : sequence .curly (member (value depth))
        ((",".intercalate (ms.map memberText)).toList ++ '\x7d' :: rest) =
          some (ms.map fun m => (some m.1, m.2), rest) :=
      sequence_intercalate (fun m hm => member_memberText (h m hm) (ih m hm)) rest
    rw [toList_text_obj, List.cons_append, List.append_assoc, value]
    simp only [Bracket.ofOpening?, List.singleton_append, hmembers, Option.map_some,
      named?_some, Option.getD_some]

theorem Plain.parse?_text {j : Json} (h : Plain maxDepth j) : parse? j.text = some j := by
  have hvalue := h.takes_value [] nofun
  have hskip := h.skipSpaces_text []
  rw [List.append_nil] at hvalue hskip
  rw [parse?, hskip, hvalue]
  rfl

end Noticeboard.Json
