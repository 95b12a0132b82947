import Noticeboard.Instant.Calendar

namespace Noticeboard

/-- The first second of the year -262143. -/
def firstSecond : Int := -8334601228800

example : firstSecond = Date.toDays ⟨-262143, 1, 1⟩ * 86400 := by decide

/-- The last second of the year 262142. -/
def lastSecond : Int := 8210266876799

example : lastSecond = Date.toDays ⟨262143, 1, 1⟩ * 86400 - 1 := by decide

/-- A second since the beginning of 1970 and its nanoseconds. A leap second has no number of its
own: it lengthens the second before it, the last one of a minute, to two. -/
structure Instant where
  second : Int
  nano : Nat
  first_le_second : firstSecond ≤ second
  second_le_last : second ≤ lastSecond
  nano_lt : nano < 2000000000
  second_of_leap : 1000000000 ≤ nano → second % 60 = 59
  deriving DecidableEq

namespace Instant

def of? (second : Int) (nano : Nat) : Option Instant :=
  if h : (firstSecond ≤ second ∧ second ≤ lastSecond) ∧
      nano < 2000000000 ∧ (1000000000 ≤ nano → second % 60 = 59) then
    some ⟨second, nano, h.1.1, h.1.2, h.2.1, h.2.2⟩
  else none

def isLeapSecond (i : Instant) : Bool :=
  1000000000 ≤ i.nano

instance : LE Instant :=
  ⟨fun a b => a.second < b.second ∨ a.second = b.second ∧ a.nano ≤ b.nano⟩

instance : DecidableLE Instant := fun a b =>
  inferInstanceAs (Decidable (a.second < b.second ∨ a.second = b.second ∧ a.nano ≤ b.nano))

theorem le_def {a b : Instant} :
    a ≤ b ↔ a.second < b.second ∨ a.second = b.second ∧ a.nano ≤ b.nano :=
  Iff.rfl

theorem le_refl (a : Instant) : a ≤ a := by
  simp [le_def]

theorem le_trans {a b c : Instant} (hab : a ≤ b) (hbc : b ≤ c) : a ≤ c := by
  simp only [le_def] at *
  omega

theorem le_total (a b : Instant) : a ≤ b ∨ b ≤ a := by
  simp only [le_def]
  omega

theorem le_antisymm {a b : Instant} (hab : a ≤ b) (hba : b ≤ a) : a = b := by
  simp only [le_def] at *
  cases a
  cases b
  simp only [mk.injEq] at *
  omega

end Instant

end Noticeboard
