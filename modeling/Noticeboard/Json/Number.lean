import Noticeboard.Json.Basic
import Noticeboard.Text

namespace Noticeboard.Json

open Text

/-- A number as it is written: `-12.5e3` has whole `12`, fraction `5` and exponent `3`. -/
structure Literal where
  negative : Bool
  whole : List Char
  fraction : List Char
  exponent : Option Int
  text : String

/-- Append digits to a number as long as it fits into 64 bits. The answer ends with the digits that
are left. -/
def appendDigits (n : Nat) : List Char → Nat × List Char
  | [] => (n, [])
  | d :: ds =>
    let next := 10 * n + digitValue d
    if next < UInt64.size then appendDigits next ds else (n, d :: ds)

structure Scaled where
  significand : Nat
  scale : Int

/-- The first digits of a number. Each further digit before the point counts as a zero, each
further digit behind it is dropped. -/
def Literal.scaled (l : Literal) : Scaled :=
  let (n, unused) := appendDigits 0 l.whole
  let (n, dropped) := appendDigits n l.fraction
  ⟨n, l.exponent.getD 0 + unused.length - (l.fraction.length - dropped.length : Nat)⟩

/-- The double nearest to a number, of two equally near the one with an even last bit. It may be
beyond the greatest double. -/
def nearestDouble (n : Nat) : Nat :=
  let unit := Nat.pow 2 (n.log2 + 1 - 53)
  let below := n / unit
  let rest := 2 * (n % unit)
  (if rest < unit ∨ rest = unit ∧ below % 2 = 0 then below else below + 1) * unit

/-- Half a unit above the greatest double: from here on nothing is rounded to a double. -/
def doubleLimit : Nat :=
  Nat.pow 2 1024 - Nat.pow 2 970

/-- Whether the product is too large for a double. No power of ten above 308 is a double. -/
def Scaled.overflows (s : Scaled) : Bool :=
  if s.significand = 0 ∨ s.scale < 0 then false
  else if 308 < s.scale then true
  else doubleLimit ≤ nearestDouble s.significand * nearestDouble (Nat.pow 10 s.scale.toNat)

example : (Scaled.mk 17976931348623158 292).overflows = true := by decide +kernel
example : (Scaled.mk 179769313486231585 291).overflows = false := by decide +kernel
example : (Scaled.mk 179769313486231585 292).overflows = true := by decide +kernel

def Literal.value (l : Literal) : Json :=
  let magnitude : Int := ofDigits l.whole
  let n := if l.negative then -magnitude else magnitude
  if l.fraction.isEmpty && l.exponent.isNone && isInt64 n && !(l.negative && n == 0) then int n
  else if l.scaled.overflows then broken l.text
  else decimal l.text

end Noticeboard.Json
