namespace Noticeboard.Text

/-- Whether the character has the White_Space property. -/
def isBlank (c : Char) : Bool :=
  let n := c.toNat
  (0x9 ≤ n && n ≤ 0xD) || n == 0x20 || n == 0x85 || n == 0xA0 || n == 0x1680 ||
    (0x2000 ≤ n && n ≤ 0x200A) || n == 0x2028 || n == 0x2029 || n == 0x202F || n == 0x205F ||
    n == 0x3000

def skipBlanks : List Char → List Char :=
  List.dropWhile isBlank

def isDigit (c : Char) : Bool :=
  '0' ≤ c && c ≤ '9'

def digitValue (c : Char) : Nat :=
  c.toNat - '0'.toNat

def ofDigits (s : List Char) : Nat :=
  s.foldl (fun n c => 10 * n + digitValue c) 0

def digitChar (n : Nat) : Char :=
  Char.ofNat ('0'.toNat + n % 10)

/-- The last `width` digits of a number, with leading zeros. -/
def paddedDigits : Nat → Nat → List Char
  | 0, _ => []
  | width + 1, n => paddedDigits width (n / 10) ++ [digitChar n]

def digitCount (n : Nat) : Nat :=
  (Nat.toDigits 10 n).length

theorem paddedDigits_length (width n : Nat) : (paddedDigits width n).length = width := by
  induction width generalizing n with
  | zero => rfl
  | succ width ih => simp [paddedDigits, ih]

theorem ofDigits_append_singleton (s : List Char) (c : Char) :
    ofDigits (s ++ [c]) = 10 * ofDigits s + digitValue c := by
  simp [ofDigits]

theorem digitValue_digitChar (n : Nat) : digitValue (digitChar n) = n % 10 := by
  have h : ∀ d : Fin 10, digitValue (Char.ofNat ('0'.toNat + d)) = d := by decide
  exact h ⟨n % 10, Nat.mod_lt n (by decide)⟩

theorem isDigit_digitChar (n : Nat) : isDigit (digitChar n) = true := by
  have h : ∀ d : Fin 10, isDigit (Char.ofNat ('0'.toNat + d)) = true := by decide
  exact h ⟨n % 10, Nat.mod_lt n (by decide)⟩

theorem ofDigits_paddedDigits (width n : Nat) :
    ofDigits (paddedDigits width n) = n % Nat.pow 10 width := by
  induction width generalizing n with
  | zero => simp [paddedDigits, ofDigits, Nat.mod_one]
  | succ width ih =>
    have hpow : Nat.pow 10 (width + 1) = 10 * Nat.pow 10 width := Nat.pow_succ'
    rw [paddedDigits, ofDigits_append_singleton, ih, digitValue_digitChar, hpow, Nat.mod_mul]
    omega

end Noticeboard.Text
