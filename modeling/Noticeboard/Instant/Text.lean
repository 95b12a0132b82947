import Noticeboard.Instant.Basic
import Noticeboard.Text

namespace Noticeboard.Instant

open Text

def yearText (year : Int) : List Char :=
  if 0 ≤ year && year ≤ 9999 then paddedDigits 4 year.toNat
  else (if year < 0 then '-' else '+') ::
    paddedDigits (max 4 (digitCount year.natAbs)) year.natAbs

/-- The fewest of three, six or nine digits that are exact; none for a whole second. -/
def fractionText (nano : Nat) : List Char :=
  if nano == 0 then []
  else if nano % 1000000 == 0 then '.' :: paddedDigits 3 (nano / 1000000)
  else if nano % 1000 == 0 then '.' :: paddedDigits 6 (nano / 1000)
  else '.' :: paddedDigits 9 nano

def dateText (d : Date) : List Char :=
  yearText d.year ++ '-' :: paddedDigits 2 d.month ++ '-' :: paddedDigits 2 d.day

/-- A leap second is the sixtieth of its minute. -/
def chars (i : Instant) : List Char :=
  let secondOfDay := (i.second % 86400).toNat
  let secondOfMinute := secondOfDay % 60 + (if i.isLeapSecond then 1 else 0)
  dateText (Date.ofDays (i.second / 86400)) ++ 'T' :: paddedDigits 2 (secondOfDay / 3600) ++
    ':' :: paddedDigits 2 (secondOfDay / 60 % 60) ++ ':' :: paddedDigits 2 secondOfMinute ++
    fractionText (i.nano % 1000000000) ++ ['Z']

def text (i : Instant) : String :=
  String.ofList i.chars

def digits (width : Nat) (s : List Char) : Option (Nat × List Char) :=
  match (s.takeWhile isDigit).take width with
  | [] => none
  | ds => some (ofDigits ds, s.drop ds.length)

def number (width : Nat) (s : List Char) : Option (Nat × List Char) :=
  digits width (skipBlanks s)

/-- A year with a sign may have any number of digits, one without has at most four. -/
def year (s : List Char) : Option (Int × List Char) :=
  match skipBlanks s with
  | '-' :: rest => (digits rest.length rest).map fun (n, rest) => (-(n : Int), rest)
  | '+' :: rest => (digits rest.length rest).map fun (n, rest) => ((n : Int), rest)
  | s => (digits 4 s).map fun (n, rest) => ((n : Int), rest)

def separator (c : Char) (s : List Char) : Option (List Char) :=
  match skipBlanks s with
  | [] => none
  | d :: rest => if d = c then some rest else none

def date (s : List Char) : Option (Date × List Char) := do
  let (year, s) ← year s
  let s ← separator '-' s
  let (month, s) ← number 2 s
  let s ← separator '-' s
  let (day, s) ← number 2 s
  return (⟨year, month, day⟩, s)

/-- The nanoseconds of a fraction, if there is one; digits after the ninth are dropped. -/
def fraction : List Char → Option (Nat × List Char)
  | '.' :: s =>
    match s.takeWhile isDigit with
    | [] => none
    | ds =>
      let used := ds.take 9
      some (ofDigits used * Nat.pow 10 (9 - used.length), s.drop ds.length)
  | s => some (0, s)

/-- A time of day: its seconds and nanoseconds. Second 60 lengthens second 59. -/
def timeOfDay (s : List Char) : Option ((Nat × Nat) × List Char) := do
  let (hour, s) ← number 2 s
  let s ← separator ':' s
  let (minute, s) ← number 2 s
  let s ← separator ':' s
  let (second, s) ← number 2 s
  let (nano, s) ← fraction s
  if hour < 24 ∧ minute < 60 ∧ second ≤ 60 then
    let (second, nano) := if second = 60 then (59, 1000000000 + nano) else (second, nano)
    some ((hour * 3600 + minute * 60 + second, nano), s)
  else none

/-- The minutes of an offset: two digits for hours and two for minutes, with any colons and blanks
between them. -/
def offsetMinutes : List Char → Option (Nat × List Char)
  | a :: b :: s =>
    match s.dropWhile (fun c => c == ':' || isBlank c) with
    | c :: d :: rest =>
      let minutes := ofDigits [a, b] * 60 + ofDigits [c, d]
      if [a, b, c, d].all isDigit ∧ c < '6' ∧ minutes < 24 * 60 then some (minutes, rest) else none
    | _ => none
  | _ => none

def zone (s : List Char) : Option (Int × List Char) :=
  match skipBlanks s with
  | 'Z' :: rest | 'z' :: rest => some (0, rest)
  | '+' :: rest => (offsetMinutes rest).map fun (n, rest) => ((n : Int), rest)
  | '-' :: rest | '\u2212' :: rest => (offsetMinutes rest).map fun (n, rest) => (-(n : Int), rest)
  | a :: b :: c :: rest =>
    if [a, b, c].map Char.toUpper = ['U', 'T', 'C'] then some (0, rest) else none
  | _ => none

/-- The instant of a local date and time in a zone. The date must be one of the calendar's and, as
the instant itself, lie between the first and the last year. -/
def ofLocal (date : Date) (secondOfDay nano : Nat) (offset : Int) : Option Instant :=
  let second := date.toDays * 86400 + secondOfDay
  if date.isValid ∧ firstSecond ≤ second ∧ second ≤ lastSecond then
    of? (second - offset * 60) nano
  else none

def ofChars (s : List Char) : Option Instant := do
  let (date, s) ← date s
  match s with
  | 'T' :: s | 't' :: s | ' ' :: s =>
    let ((second, nano), s) ← timeOfDay s
    let (offset, s) ← zone s
    if (skipBlanks s).isEmpty then ofLocal date second nano offset else none
  | _ => none

def parse? (s : String) : Option Instant :=
  ofChars s.toList

end Noticeboard.Instant
