namespace Noticeboard

structure Date where
  year : Int
  month : Nat
  day : Nat
  deriving DecidableEq, Repr

namespace Date

def isLeap (year : Int) : Bool :=
  year % 4 == 0 && (year % 100 != 0 || year % 400 == 0)

def daysBeforeMonth (leap : Bool) (month : Nat) : Nat :=
  let extra := if leap then 1 else 0
  match month with
  | 0 | 1 => 0
  | 2 => 31
  | 3 => 59 + extra
  | 4 => 90 + extra
  | 5 => 120 + extra
  | 6 => 151 + extra
  | 7 => 181 + extra
  | 8 => 212 + extra
  | 9 => 243 + extra
  | 10 => 273 + extra
  | 11 => 304 + extra
  | 12 => 334 + extra
  | _ => 365 + extra

def daysInMonth (leap : Bool) (month : Nat) : Nat :=
  daysBeforeMonth leap (month + 1) - daysBeforeMonth leap month

/-- The days before a year, counted from the beginning of 1970. -/
def daysBeforeYear (year : Int) : Int :=
  365 * (year - 1) + (year - 1) / 4 - (year - 1) / 100 + (year - 1) / 400 - 719162

def isValid (d : Date) : Bool :=
  1 ≤ d.month && d.month ≤ 12 && 1 ≤ d.day && d.day ≤ daysInMonth (isLeap d.year) d.month

def toDays (d : Date) : Int :=
  daysBeforeYear d.year + daysBeforeMonth (isLeap d.year) d.month + (d.day - 1 : Int)

/-- The year that a day falls into. The mean length of a year gives it up to one. -/
def yearOf (days : Int) : Int :=
  let guess := (days + 719162) * 400 / 146097 + 1
  if days < daysBeforeYear guess then guess - 1
  else if daysBeforeYear (guess + 1) ≤ days then guess + 1
  else guess

/-- The month that a day of a year falls into: the number of months begun by then. -/
def monthOf (leap : Bool) (dayOfYear : Nat) : Nat :=
  ((List.range' 1 12).filter fun m => daysBeforeMonth leap m ≤ dayOfYear).length

def ofDays (days : Int) : Date :=
  let year := yearOf days
  let dayOfYear := (days - daysBeforeYear year).toNat
  let month := monthOf (isLeap year) dayOfYear
  ⟨year, month, dayOfYear - daysBeforeMonth (isLeap year) month + 1⟩

example : ofDays 0 = ⟨1970, 1, 1⟩ := by decide
example : ofDays (-1) = ⟨1969, 12, 31⟩ := by decide
example : ofDays (-719528) = ⟨0, 1, 1⟩ := by decide
example : toDays ⟨2024, 2, 29⟩ = 19782 := by decide

end Date

end Noticeboard
