import Noticeboard.Json.Parser

namespace Noticeboard.Json

open Text

theorem Piece.ofNat_toNat (c : Char) (h : c.toNat < 0x20) : ofNat c.toNat = char c := by
  have hhigh : isHighSurrogate c.toNat = false := by
    simp only [isHighSurrogate, Bool.and_eq_false_iff, decide_eq_false_iff_not]
    omega
  have hlow : isLowSurrogate c.toNat = false := by
    simp only [isLowSurrogate, Bool.and_eq_false_iff, decide_eq_false_iff_not]
    omega
  rw [ofNat, hhigh, hlow, Char.ofNat_toNat]
  rfl

theorem hexValue_digitChar {n : Nat} (h : n < 16) : hexValue n.digitChar = some n := by
  have hall : ∀ n < 16, hexValue n.digitChar = some n := by decide
  exact hall n h

theorem piecesRest_control {c : Char} {n d : Nat} (h : c.toNat = n * 16 + d) (hn : n < 2)
    (hd : d < 16) (read : List Piece) (s : List Char) :
    piecesRest read ('\\' :: 'u' :: '0' :: '0' :: n.digitChar :: d.digitChar :: s) =
      piecesRest (.char c :: read) s := by
  have hzero : hexValue '0' = some 0 := rfl
  have hhex : hex4 '0' '0' n.digitChar d.digitChar = some c.toNat := by
    rw [hex4, hzero, hexValue_digitChar (by omega : n < 16), hexValue_digitChar hd, h]
    exact congrArg some (by omega : ((0 * 16 + 0) * 16 + n) * 16 + d = n * 16 + d)
  rw [piecesRest, hhex]
  dsimp only
  rw [Piece.ofNat_toNat c (by omega)]

theorem piecesRest_escape (c : Char) (read : List Piece) (s : List Char) :
    piecesRest read ((escape c).toList ++ s) = piecesRest (.char c :: read) s := by
  unfold escape
  split
  · rfl
  · rfl
  · rfl
  · rfl
  · rfl
  · rfl
  · rfl
  · next hquote hbackslash _ _ _ _ _ =>
    split
    · next h =>
      have hc : c.toNat = 0 * 16 + c.toNat := by omega
      simp only [Nat.toDigits_of_lt_base h, String.toList_append, String.toList_ofList]
      exact piecesRest_control hc (by decide) h read s
    · split
      · next hlow hhigh =>
        have hone : c.toNat / 16 = 1 := by omega
        have hc : c.toNat = 1 * 16 + c.toNat % 16 := by omega
        have hdigits : Nat.toDigits 16 c.toNat = [Nat.digitChar 1, (c.toNat % 16).digitChar] := by
          rw [Nat.toDigits_of_base_le (by decide) (Nat.not_lt.mp hlow), hone]
          rfl
        simp only [hdigits, String.toList_append, String.toList_ofList]
        exact piecesRest_control hc (by decide) (Nat.mod_lt _ (by decide)) read s
      · next h =>
        rw [Char.toString_eq_singleton, String.toList_singleton, List.singleton_append,
          piecesRest, if_neg h]
        · exact hquote
        · exact fun _ _ _ _ _ h _ => hbackslash h
        · exact fun _ _ h _ => hbackslash h

def escaped (cs : List Char) : List Char :=
  cs.flatMap fun c => (escape c).toList

theorem piecesRest_escaped (read : List Piece) (cs rest : List Char) :
    piecesRest read (escaped cs ++ '"' :: rest) = some (read.reverse ++ cs.map .char, rest) := by
  induction cs generalizing read with
  | nil => rw [List.map_nil, List.append_nil]; rfl
  | cons c cs ih =>
    rw [escaped, List.flatMap_cons, List.append_assoc, piecesRest_escape, ← escaped, ih,
      List.reverse_cons, List.append_assoc, List.map_cons]
    rfl

theorem joinOnto_chars (made cs : List Char) :
    joinOnto made (cs.map .char) = some (cs.reverse ++ made) := by
  induction cs generalizing made with
  | nil => rfl
  | cons c cs ih =>
    rw [List.map_cons, joinOnto, ih, List.reverse_cons, List.append_assoc]
    rfl

theorem toList_quote (s : String) :
    (quote s).toList = '"' :: (escaped s.toList ++ ['"']) := by
  rw [quote, String.toList_append, String.toList_append, String.toList_join, List.flatMap_map]
  rfl

theorem stringRest_escaped (s : String) (rest : List Char) :
    stringRest (escaped s.toList ++ '"' :: rest) = some (some s, rest) := by
  have hjoin : join? (s.toList.map .char) = some s := by
    rw [join?.eq_def, joinOnto_chars, Option.map_some, List.append_nil, List.reverse_reverse,
      String.ofList_toList]
  rw [stringRest, piecesRest_escaped, Option.map_some, List.reverse_nil, List.nil_append]
  exact congrArg (fun s => some (s, rest)) hjoin

theorem isDigit_of_mem_toDigits {n : Nat} {c : Char} (h : c ∈ Nat.toDigits 10 n) :
    isDigit c = true :=
  Nat.isDigit_of_mem_toDigits (by decide) (by decide) h

theorem exists_toDigits_eq_cons (n : Nat) :
    ∃ c cs, Nat.toDigits 10 n = c :: cs ∧ isDigit c = true := by
  cases hs : Nat.toDigits 10 n with
  | nil => exact absurd hs Nat.toDigits_ne_nil
  | cons c cs => exact ⟨c, cs, rfl, isDigit_of_mem_toDigits (hs ▸ List.mem_cons_self)⟩

theorem ofDigits_toDigits (n : Nat) : ofDigits (Nat.toDigits 10 n) = n :=
  Nat.ofDigitChars_ten_toDigits

theorem toDigits_ne_zero_cons {n : Nat} (h : 0 < n) (s : List Char) :
    Nat.toDigits 10 n ≠ '0' :: s := by
  induction n using Nat.strongRecOn generalizing s with
  | ind n ih =>
    by_cases hn : n < 10
    · have hdigit : ∀ n < 10, 0 < n → n.digitChar ≠ '0' := by decide
      rw [Nat.toDigits_of_lt_base hn]
      exact fun heq => hdigit n hn h (List.cons.inj heq).1
    · rw [Nat.toDigits_of_base_le (by decide) (Nat.not_lt.mp hn)]
      obtain ⟨c, cs, hs, -⟩ := exists_toDigits_eq_cons (n / 10)
      rw [hs]
      intro heq
      have hc : c = '0' := (List.cons.inj heq).1
      exact ih (n / 10) (by omega) (by omega) cs (hc ▸ hs)

theorem toList_toString_ofNat (n : Nat) :
    (toString (Int.ofNat n)).toList = Nat.toDigits 10 n := by
  change n.repr.toList = _
  rw [Nat.repr_eq_ofList_toDigits, String.toList_ofList]

theorem toList_toString_negSucc (n : Nat) :
    (toString (Int.negSucc n)).toList = '-' :: Nat.toDigits 10 (n + 1) := by
  change ("-" ++ (n + 1).repr).toList = _
  rw [Nat.repr_eq_ofList_toDigits]
  simp only [String.toList_append, String.toList_ofList]
  rfl

def startsNumber (c : Char) : Bool :=
  isDigit c || c == '-'

theorem ne_of_startsNumber {c d : Char} (hc : startsNumber c = true)
    (hd : startsNumber d = false) : c ≠ d := by
  rintro rfl
  exact Bool.false_ne_true (hd.symm.trans hc)

theorem exists_toString_eq_cons (n : Int) :
    ∃ c cs, (toString n).toList = c :: cs ∧ startsNumber c = true := by
  cases n with
  | ofNat n =>
    obtain ⟨c, cs, hs, hc⟩ := exists_toDigits_eq_cons n
    exact ⟨c, cs, (toList_toString_ofNat n).trans hs, by rw [startsNumber, hc]; rfl⟩
  | negSucc n => exact ⟨'-', _, toList_toString_negSucc n, rfl⟩

theorem value_whole {negative : Bool} {ds : List Char} {n : Int} {text : String}
    (hn : (if negative then -(ofDigits ds : Int) else ofDigits ds) = n) (h : isInt64 n = true)
    (hzero : negative = true → n ≠ 0) :
    (Literal.mk negative ds [] none text).value = int n := by
  have hsigned : (!(negative && n == 0)) = true := by
    cases negative with
    | false => rfl
    | true =>
      rw [Bool.true_and, beq_false_of_ne (hzero rfl)]
      rfl
  unfold Literal.value
  dsimp only
  rw [hn, h, hsigned]
  rfl

/-- What cannot go on with a value that stands before it. -/
def Stops (rest : List Char) : Prop :=
  ∀ c ∈ rest.head?, c = ',' ∨ c = ']' ∨ c = '\x7d'

section

variable {rest : List Char} (hrest : Stops rest)

include hrest

theorem span_digits {ds : List Char} (hds : ∀ c ∈ ds, isDigit c = true) :
    (ds ++ rest).span isDigit = (ds, rest) := by
  have hloop (acc : List Char) : List.span.loop isDigit (ds ++ rest) acc =
      (acc.reverse ++ ds, rest) := by
    induction ds generalizing acc with
    | nil =>
      rw [List.nil_append, List.append_nil]
      cases rest with
      | nil => rfl
      | cons c cs => rcases hrest c rfl with rfl | rfl | rfl <;> rfl
    | cons d ds ih =>
      rw [List.forall_mem_cons] at hds
      change (match isDigit d with
        | true => List.span.loop isDigit (ds ++ rest) (d :: acc)
        | false => (acc.reverse, d :: (ds ++ rest))) = _
      rw [hds.1]
      dsimp only
      rw [ih hds.2, List.reverse_cons, List.append_assoc]
      rfl
  exact hloop []

theorem whole_toDigits (n : Nat) :
    whole (Nat.toDigits 10 n ++ rest) = some (Nat.toDigits 10 n, rest) := by
  rcases Nat.eq_zero_or_pos n with rfl | hn
  · rfl
  · have hdigits : digits (Nat.toDigits 10 n ++ rest) = some (Nat.toDigits 10 n, rest) := by
      rw [digits, span_digits hrest fun _ => isDigit_of_mem_toDigits]
      split
      · next h => exact absurd (Prod.mk.inj h).1 Nat.toDigits_ne_nil
      · next h =>
        obtain ⟨rfl, rfl⟩ := Prod.mk.inj h
        rfl
    obtain ⟨c, cs, hs, -⟩ := exists_toDigits_eq_cons n
    rw [← hdigits, hs, List.cons_append, whole]
    intro _ heq
    obtain rfl := (List.cons.inj heq).1
    exact toDigits_ne_zero_cons hn cs hs

theorem fraction_of_stops : fraction rest = some ([], rest) := by
  cases rest with
  | nil => rfl
  | cons c cs =>
    rcases hrest c rfl with rfl | rfl | rfl <;> rfl

theorem exponent_of_stops : exponent rest = some (none, rest) := by
  cases rest with
  | nil => rfl
  | cons c cs =>
    rcases hrest c rfl with rfl | rfl | rfl <;> rfl

theorem number_digits {n : Nat} (h : isInt64 n = true) :
    number (Nat.toDigits 10 n ++ rest) = some (int n, rest) := by
  have hunsigned (s : List Char) : Nat.toDigits 10 n ++ rest ≠ '-' :: s := by
    obtain ⟨c, cs, hs, hc⟩ := exists_toDigits_eq_cons n
    rw [hs]
    intro heq
    obtain rfl := (List.cons.inj heq).1
    cases hc
  unfold number
  split
  next negative unsigned hsplit =>
  split at hsplit
  · next s hs => exact absurd hs (hunsigned s)
  · obtain ⟨rfl, rfl⟩ := Prod.mk.inj hsplit
    have hvalue (text : String) : (Literal.mk false (Nat.toDigits 10 n) [] none text).value =
        int n := value_whole (congrArg Nat.cast (ofDigits_toDigits n)) h nofun
    simp only [whole_toDigits hrest, fraction_of_stops hrest, exponent_of_stops hrest, hvalue,
      Option.bind_eq_bind, Option.bind_some, Option.pure_def]

theorem number_minus {n : Nat} (h : isInt64 (-n) = true) (hn : 0 < n) :
    number ('-' :: (Nat.toDigits 10 n ++ rest)) = some (int (-n), rest) := by
  have hvalue (text : String) : (Literal.mk true (Nat.toDigits 10 n) [] none text).value =
      int (-n) := value_whole (congrArg (-Nat.cast ·) (ofDigits_toDigits n)) h fun _ => by omega
  unfold number
  simp only [whole_toDigits hrest, fraction_of_stops hrest, exponent_of_stops hrest, hvalue,
    Option.bind_eq_bind, Option.bind_some, Option.pure_def]

theorem number_int {n : Int} (h : isInt64 n = true) :
    number ((toString n).toList ++ rest) = some (int n, rest) := by
  cases n with
  | ofNat n =>
    rw [toList_toString_ofNat]
    exact number_digits hrest h
  | negSucc n =>
    rw [toList_toString_negSucc]
    exact number_minus hrest h (Nat.succ_pos n)

end

end Noticeboard.Json
