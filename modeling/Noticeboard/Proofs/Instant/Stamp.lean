import Noticeboard.Instant.Text
import Noticeboard.Proofs.Instant.Calendar

namespace Noticeboard

namespace Text

theorem isDigit_of_mem_paddedDigits {width n : Nat} {c : Char} (h : c ∈ paddedDigits width n) :
    isDigit c = true := by
  induction width generalizing n with
  | zero => cases h
  | succ width ih =>
    rcases List.mem_append.mp h with h | h
    · exact ih h
    · obtain rfl := List.mem_singleton.mp h
      exact isDigit_digitChar n

theorem isBlank_of_isDigit {c : Char} (h : isDigit c = true) : isBlank c = false := by
  have hc : 48 ≤ c.toNat ∧ c.toNat ≤ 57 := by
    simpa [isDigit, Char.le_def, UInt32.le_iff_toNat_le] using h
  simp only [isBlank, Bool.or_eq_false_iff, Bool.and_eq_false_iff, decide_eq_false_iff_not,
    beq_eq_false_iff_ne]
  omega

theorem exists_paddedDigits_eq_cons {width : Nat} (h : 0 < width) (n : Nat) :
    ∃ c cs, paddedDigits width n = c :: cs ∧ isDigit c = true := by
  cases hs : paddedDigits width n with
  | nil =>
    have hlength := paddedDigits_length width n
    rw [hs] at hlength
    exact absurd hlength (Nat.ne_of_lt h)
  | cons c cs => exact ⟨c, cs, rfl, isDigit_of_mem_paddedDigits (hs ▸ List.mem_cons_self)⟩

theorem takeWhile_paddedDigits (width n : Nat) {rest : List Char}
    (hrest : rest.takeWhile isDigit = []) :
    (paddedDigits width n ++ rest).takeWhile isDigit = paddedDigits width n := by
  rw [List.takeWhile_append_of_pos fun _ => isDigit_of_mem_paddedDigits, hrest, List.append_nil]

theorem skipBlanks_paddedDigits {width : Nat} (h : 0 < width) (n : Nat) (rest : List Char) :
    skipBlanks (paddedDigits width n ++ rest) = paddedDigits width n ++ rest := by
  obtain ⟨c, cs, hs, hc⟩ := exists_paddedDigits_eq_cons h n
  rw [hs, List.cons_append, skipBlanks, List.dropWhile_cons_of_neg]
  rw [isBlank_of_isDigit hc]
  exact Bool.false_ne_true

theorem take_paddedDigits {width written : Nat} (h : written ≤ width) (n : Nat) :
    (paddedDigits written n).take width = paddedDigits written n :=
  List.take_of_length_le (Nat.le_trans (Nat.le_of_eq (paddedDigits_length written n)) h)

theorem ofDigits_paddedDigits_of_lt {width n : Nat} (h : n < Nat.pow 10 width) :
    ofDigits (paddedDigits width n) = n :=
  (ofDigits_paddedDigits width n).trans (Nat.mod_eq_of_lt h)

theorem lt_pow_digitCount {width n : Nat} (h : digitCount n ≤ width) : n < Nat.pow 10 width := by
  have hpos : 0 < width := Nat.lt_of_lt_of_le Nat.length_toDigits_pos h
  exact (Nat.length_toDigits_le_iff (by decide) hpos).mp h

end Text

namespace Instant

open Text

theorem year_of_isDigit {c : Char} (hc : isDigit c = true) (s : List Char) :
    year (c :: s) = (digits 4 (c :: s)).map fun (n, rest) => ((n : Int), rest) := by
  have hskip : skipBlanks (c :: s) = c :: s :=
    List.dropWhile_cons_of_neg (isBlank_of_isDigit hc ▸ Bool.false_ne_true)
  rw [year, hskip]
  split
  · next h => cases h; cases hc
  · next h => cases h; cases hc
  · rfl

section

variable {rest : List Char} (hrest : rest.takeWhile isDigit = [])

include hrest

theorem digits_paddedDigits {width written n : Nat} (hpos : 0 < written) (hw : written ≤ width)
    (hn : n < Nat.pow 10 written) :
    digits width (paddedDigits written n ++ rest) = some (n, rest) := by
  obtain ⟨c, cs, hs, -⟩ := exists_paddedDigits_eq_cons hpos n
  rw [digits, takeWhile_paddedDigits written n hrest, take_paddedDigits hw]
  split
  · next h => rw [hs] at h; cases h
  · rw [ofDigits_paddedDigits_of_lt hn, List.drop_left]

theorem number_paddedDigits {width n : Nat} (hpos : 0 < width) (hn : n < Nat.pow 10 width) :
    number width (paddedDigits width n ++ rest) = some (n, rest) := by
  rw [number, skipBlanks_paddedDigits hpos]
  exact digits_paddedDigits hrest hpos (Nat.le_refl width) hn

/-- A sign is written just where the four digits would not show the year. -/
theorem year_yearText (y : Int) : year (yearText y ++ rest) = some (y, rest) := by
  rw [yearText]
  split
  · next h =>
    rw [Bool.and_eq_true, decide_eq_true_eq, decide_eq_true_eq] at h
    obtain ⟨c, cs, hs, hc⟩ := exists_paddedDigits_eq_cons (by decide : 0 < 4) y.toNat
    have hdigits := digits_paddedDigits hrest (by decide : 0 < 4) (Nat.le_refl 4)
      (by omega : y.toNat < 10000)
    rw [hs, List.cons_append] at hdigits
    rw [hs, List.cons_append, year_of_isDigit hc, hdigits]
    simp only [Option.map_some, Int.toNat_of_nonneg h.1]
  · next h =>
    have hwidth : 0 < max 4 (digitCount y.natAbs) := by omega
    have hlength : max 4 (digitCount y.natAbs) ≤
        (paddedDigits (max 4 (digitCount y.natAbs)) y.natAbs ++ rest).length := by
      rw [List.length_append, paddedDigits_length]
      exact Nat.le_add_right _ _
    have hdigits := digits_paddedDigits hrest hwidth hlength
      (lt_pow_digitCount (Nat.le_max_right 4 _))
    rw [List.cons_append]
    split
    · next hneg =>
      change (digits _ _).map _ = _
      rw [hdigits]
      exact congrArg (fun y => some (y, rest)) (by omega : -(y.natAbs : Int) = y)
    · next hneg =>
      change (digits _ _).map _ = _
      rw [hdigits]
      exact congrArg (fun y => some (y, rest)) (by omega : (y.natAbs : Int) = y)

theorem date_dateText {d : Date} (hmonth : d.month < 100) (hday : d.day < 100) :
    date (dateText d ++ rest) = some (d, rest) := by
  have hseparated (s : List Char) : ('-' :: s).takeWhile isDigit = [] := rfl
  have hseparator (s : List Char) : separator '-' ('-' :: s) = some s := rfl
  simp only [date, dateText, List.append_assoc, List.cons_append, year_yearText (hseparated _),
    hseparator, number_paddedDigits (hseparated _) (by decide : 0 < 2) hmonth,
    number_paddedDigits hrest (by decide : 0 < 2) hday, Option.bind_eq_bind, Option.bind_some,
    Option.pure_def]

theorem fraction_paddedDigits {width n : Nat} (hpos : 0 < width) (hw : width ≤ 9)
    (hn : n < Nat.pow 10 width) :
    fraction ('.' :: (paddedDigits width n ++ rest)) = some (n * Nat.pow 10 (9 - width), rest) := by
  obtain ⟨c, cs, hs, -⟩ := exists_paddedDigits_eq_cons hpos n
  rw [fraction, takeWhile_paddedDigits width n hrest]
  split
  · next h => rw [hs] at h; cases h
  · dsimp only
    rw [take_paddedDigits hw, ofDigits_paddedDigits_of_lt hn, List.drop_left, paddedDigits_length]

end

theorem fraction_fractionText {nano : Nat} (h : nano < 1000000000) :
    fraction (fractionText nano ++ ['Z']) = some (nano, ['Z']) := by
  have hrest : ['Z'].takeWhile isDigit = [] := rfl
  rw [fractionText]
  split
  · next hnano =>
    rw [eq_of_beq hnano]
    rfl
  · split
    · next hnano =>
      have hzeros := eq_of_beq hnano
      have hdigits : nano / 1000000 < 1000 := by omega
      rw [List.cons_append, fraction_paddedDigits hrest (by decide) (by decide) hdigits]
      exact congrArg (fun n => some (n, ['Z'])) (by omega : nano / 1000000 * 1000000 = nano)
    · split
      · next hnano =>
        have hzeros := eq_of_beq hnano
        have hdigits : nano / 1000 < 1000000 := by omega
        rw [List.cons_append, fraction_paddedDigits hrest (by decide) (by decide) hdigits]
        exact congrArg (fun n => some (n, ['Z'])) (by omega : nano / 1000 * 1000 = nano)
      · rw [List.cons_append, fraction_paddedDigits hrest (by decide) (by decide) h]
        exact congrArg (fun n => some (n, ['Z'])) (Nat.mul_one nano)

theorem takeWhile_fractionText (nano : Nat) :
    (fractionText nano ++ ['Z']).takeWhile isDigit = [] := by
  rw [fractionText]
  split
  · rfl
  · split
    · rfl
    · split <;> rfl

/-- A leap second is written as the sixtieth, and lengthens the one before it when it is read. -/
theorem timeOfDay_text {hour minute second nano : Nat} (hhour : hour < 24) (hminute : minute < 60)
    (hsecond : second < 60) (hnano : nano < 2000000000) (hleap : 1000000000 ≤ nano → second = 59) :
    timeOfDay (paddedDigits 2 hour ++ ':' :: (paddedDigits 2 minute ++ ':' ::
      (paddedDigits 2 (second + if 1000000000 ≤ nano then 1 else 0) ++
        (fractionText (nano % 1000000000) ++ ['Z'])))) =
      some ((hour * 3600 + minute * 60 + second, nano), ['Z']) := by
  have hseparated (s : List Char) : (':' :: s).takeWhile isDigit = [] := rfl
  have hseparator (s : List Char) : separator ':' (':' :: s) = some s := rfl
  have hfraction := fraction_fractionText (Nat.mod_lt nano (by decide : 0 < 1000000000))
  have hbehind := takeWhile_fractionText (nano % 1000000000)
  have hwritten : (second + if 1000000000 ≤ nano then 1 else 0) < 100 := by
    split <;> omega
  simp only [timeOfDay, hseparator, number_paddedDigits (hseparated _) (by decide : 0 < 2)
    (Nat.lt_trans hhour (by decide)), number_paddedDigits (hseparated _) (by decide : 0 < 2)
    (Nat.lt_trans hminute (by decide)), number_paddedDigits hbehind (by decide : 0 < 2) hwritten,
    hfraction, Option.bind_eq_bind, Option.bind_some]
  by_cases h : 1000000000 ≤ nano
  · have hsixty : second + 1 = 60 := congrArg (· + 1) (hleap h)
    have hlonger : 1000000000 + nano % 1000000000 = nano := by omega
    rw [if_pos h, if_pos ⟨hhour, hminute, Nat.le_of_eq hsixty⟩, if_pos hsixty, hlonger, hleap h]
  · have hshort : nano % 1000000000 = nano := Nat.mod_eq_of_lt (Nat.not_le.mp h)
    rw [if_neg h, Nat.add_zero, if_pos ⟨hhour, hminute, Nat.le_of_lt hsecond⟩,
      if_neg (Nat.ne_of_lt hsecond), hshort]

theorem ofLocal_second (i : Instant) :
    ofLocal (Date.ofDays (i.second / 86400)) (i.second % 86400).toNat i.nano 0 = some i := by
  have hsecond : (Date.ofDays (i.second / 86400)).toDays * 86400 + (i.second % 86400).toNat =
      i.second := by
    rw [Date.toDays_ofDays]
    omega
  rw [ofLocal, hsecond, if_pos ⟨Date.isValid_ofDays _, i.first_le_second, i.second_le_last⟩, of?,
    Int.zero_mul, Int.sub_zero,
    dif_pos ⟨⟨i.first_le_second, i.second_le_last⟩, i.nano_lt, i.second_of_leap⟩]

theorem parse?_text (i : Instant) : parse? i.text = some i := by
  have hseparated (s : List Char) : ('T' :: s).takeWhile isDigit = [] := rfl
  have hle := Date.ofDays_le (i.second / 86400)
  have hmonth : (Date.ofDays (i.second / 86400)).month < 100 := by omega
  have hday : (Date.ofDays (i.second / 86400)).day < 100 := by omega
  have hhour : (i.second % 86400).toNat / 3600 < 24 := by omega
  have hminute : (i.second % 86400).toNat / 60 % 60 < 60 := by omega
  have hsecond : (i.second % 86400).toNat % 60 < 60 := by omega
  have hleap (h : 1000000000 ≤ i.nano) : (i.second % 86400).toNat % 60 = 59 := by
    have hlast := i.second_of_leap h
    omega
  have htime := timeOfDay_text hhour hminute hsecond i.nano_lt hleap
  have hparts : (i.second % 86400).toNat / 3600 * 3600 + (i.second % 86400).toNat / 60 % 60 * 60 +
      (i.second % 86400).toNat % 60 = (i.second % 86400).toNat := by omega
  have hzone : zone ['Z'] = some (0, []) := rfl
  have hend : (skipBlanks []).isEmpty = true := rfl
  rw [parse?, text, String.toList_ofList, ofChars, chars]
  simp only [List.append_assoc, List.cons_append, date_dateText (hseparated _) hmonth hday,
    Option.bind_eq_bind, Option.bind_some, isLeapSecond, decide_eq_true_eq, htime, hzone, hend,
    if_true, hparts]
  exact ofLocal_second i

end Instant

end Noticeboard
