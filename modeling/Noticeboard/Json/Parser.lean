import Noticeboard.Json.Number

namespace Noticeboard.Json

open Text

/-- A reader takes a value off the front of a text and gives the rest. -/
abbrev Reads (α : Type) := List Char → Option (α × List Char)

def isSpace (c : Char) : Bool :=
  c == ' ' || c == '\n' || c == '\r' || c == '\t'

def skipSpaces : List Char → List Char :=
  List.dropWhile isSpace

def taken (s rest : List Char) : String :=
  String.ofList (s.take (s.length - rest.length))

def hexValue (c : Char) : Option Nat :=
  if isDigit c then some (digitValue c)
  else if 'a' ≤ c && c ≤ 'f' then some (c.toNat - 'a'.toNat + 10)
  else if 'A' ≤ c && c ≤ 'F' then some (c.toNat - 'A'.toNat + 10)
  else none

def hex4 (a b c d : Char) : Option Nat := do
  let a ← hexValue a
  let b ← hexValue b
  let c ← hexValue c
  let d ← hexValue d
  return ((a * 16 + b) * 16 + c) * 16 + d

def isHighSurrogate (n : Nat) : Bool :=
  0xD800 ≤ n && n < 0xDC00

def isLowSurrogate (n : Nat) : Bool :=
  0xDC00 ≤ n && n < 0xE000

def ofSurrogates (high low : Nat) : Char :=
  Char.ofNat (0x10000 + (high - 0xD800) * 0x400 + (low - 0xDC00))

def ofLetter : Char → Option Char
  | '"' => some '"'
  | '\\' => some '\\'
  | '/' => some '/'
  | 'b' => some '\x08'
  | 'f' => some '\x0c'
  | 'n' => some '\n'
  | 'r' => some '\r'
  | 't' => some '\t'
  | _ => none

inductive Piece where
  | char (c : Char)
  | half (n : Nat)

def Piece.ofNat (n : Nat) : Piece :=
  if isHighSurrogate n || isLowSurrogate n then half n else char (Char.ofNat n)

/-- The rest of a string after its opening quote. `read` holds the pieces before, last first. -/
def piecesRest (read : List Piece) : Reads (List Piece)
  | [] => none
  | '"' :: rest => some (read.reverse, rest)
  | '\\' :: 'u' :: a :: b :: c :: d :: rest =>
    match hex4 a b c d with
    | none => none
    | some n => piecesRest (.ofNat n :: read) rest
  | '\\' :: c :: rest =>
    match ofLetter c with
    | none => none
    | some c => piecesRest (.char c :: read) rest
  | c :: rest => if c.toNat < 0x20 then none else piecesRest (.char c :: read) rest

/-- The characters that pieces make, last first after those in `made`. A high half needs a low one
behind it. -/
def joinOnto (made : List Char) : List Piece → Option (List Char)
  | [] => some made
  | .char c :: pieces => joinOnto (c :: made) pieces
  | .half n :: .half m :: pieces =>
    if isHighSurrogate n && isLowSurrogate m then joinOnto (ofSurrogates n m :: made) pieces
    else none
  | .half _ :: _ => none

def join? (pieces : List Piece) : Option String :=
  (joinOnto [] pieces).map fun cs => String.ofList cs.reverse

/-- A string after its opening quote: nothing, if it has half of a character in it. -/
def stringRest : Reads (Option String) := fun s =>
  (piecesRest [] s).map fun (pieces, rest) => (join? pieces, rest)

def digits : Reads (List Char) := fun s =>
  match s.span isDigit with
  | ([], _) => none
  | (ds, rest) => some (ds, rest)

def whole : Reads (List Char)
  | '0' :: rest => some (['0'], rest)
  | s => digits s

def fraction : Reads (List Char)
  | '.' :: rest => digits rest
  | s => some ([], s)

def signedDigits : Reads Int
  | '+' :: rest => (digits rest).map fun (ds, rest) => ((ofDigits ds : Int), rest)
  | '-' :: rest => (digits rest).map fun (ds, rest) => (-(ofDigits ds : Int), rest)
  | s => (digits s).map fun (ds, rest) => ((ofDigits ds : Int), rest)

def exponent : Reads (Option Int)
  | 'e' :: rest => (signedDigits rest).map fun (n, rest) => (some n, rest)
  | 'E' :: rest => (signedDigits rest).map fun (n, rest) => (some n, rest)
  | s => some (none, s)

def number : Reads Json := fun s => do
  let (negative, unsigned) := match s with
    | '-' :: rest => (true, rest)
    | s => (false, s)
  let (whole, rest) ← whole unsigned
  let (fraction, rest) ← fraction rest
  let (exponent, rest) ← exponent rest
  let literal : Literal := ⟨negative, whole, fraction, exponent, taken s rest⟩
  return (literal.value, rest)

def scalar : Reads Json
  | 'n' :: 'u' :: 'l' :: 'l' :: rest => some (null, rest)
  | 't' :: 'r' :: 'u' :: 'e' :: rest => some (bool true, rest)
  | 'f' :: 'a' :: 'l' :: 's' :: 'e' :: rest => some (bool false, rest)
  | '"' :: s =>
    (stringRest s).map fun (string, rest) =>
      ((string.map str).getD (broken (taken ('"' :: s) rest)), rest)
  | s => number s

def memberName : Reads (Option String)
  | '"' :: rest => do
    let (name, rest) ← stringRest rest
    match skipSpaces rest with
    | ':' :: rest => some (name, skipSpaces rest)
    | _ => none
  | _ => none

inductive Bracket where
  | square
  | curly
  deriving DecidableEq

def Bracket.ofOpening? : List Char → Option (Bracket × List Char)
  | '[' :: rest => some (square, rest)
  | '\x7b' :: rest => some (curly, rest)
  | _ => none

def Bracket.closing : Bracket → Char
  | square => ']'
  | curly => '\x7d'

inductive Place where
  | start
  | beforeItem
  | afterItem
  deriving DecidableEq

/-- The rest behind all the open brackets, the inner ones first. -/
def skipBrackets : Nat → Place → List Bracket → List Char → Option (List Char)
  | _, _, [], s => some s
  | 0, _, _ :: _, _ => none
  | fuel + 1, place, bracket :: outer, s =>
    match skipSpaces s with
    | [] => none
    | c :: rest =>
      if c = bracket.closing ∧ place ≠ .beforeItem then skipBrackets fuel .afterItem outer rest
      else if place = .afterItem then
        if c = ',' then skipBrackets fuel .beforeItem (bracket :: outer) rest else none
      else
        let item := if bracket = .curly then (memberName (c :: rest)).map (·.2)
          else some (c :: rest)
        match item with
        | none => none
        | some item =>
          match Bracket.ofOpening? item with
          | some (inner, rest) => skipBrackets fuel .start (inner :: bracket :: outer) rest
          | none =>
            match scalar item with
            | none => none
            | some (_, rest) => skipBrackets fuel .afterItem (bracket :: outer) rest

/-- A value of which only the text is kept if it has brackets. -/
def skipped : Reads Json := fun s =>
  match Bracket.ofOpening? s with
  | some (bracket, inside) =>
    (skipBrackets s.length .start [bracket] inside).map fun rest => (broken (taken s rest), rest)
  | none => scalar s

def member (item : Reads Json) : Reads (Option String × Json) := fun s => do
  let (name, rest) ← memberName s
  let (value, rest) ← item rest
  return ((name, value), rest)

/-- What stands in brackets after its first item, and the rest behind the closing bracket. -/
def sequenceRest (bracket : Bracket) (item : Reads α) : Nat → Reads (List α)
  | 0, _ => none
  | fuel + 1, s =>
    match skipSpaces s with
    | [] => none
    | c :: rest =>
      if c = bracket.closing then some ([], rest)
      else if c = ',' then do
        let (first, rest) ← item (skipSpaces rest)
        let (others, rest) ← sequenceRest bracket item fuel rest
        return (first :: others, rest)
      else none

def sequence (bracket : Bracket) (item : Reads α) : Reads (List α) := fun s =>
  let s := skipSpaces s
  if s.head? = some bracket.closing then some ([], s.tail)
  else do
    let (first, rest) ← item s
    let (others, rest) ← sequenceRest bracket item s.length rest
    return (first :: others, rest)

def named? (ms : List (Option String × Json)) : Option (List (String × Json)) :=
  ms.mapM fun (name, value) => name.map (·, value)

/-- A value whose brackets nest at most `depth` deep, or deeper in what is broken. -/
def value : Nat → Reads Json
  | 0, s => skipped s
  | depth + 1, s =>
    match Bracket.ofOpening? s with
    | some (.square, inside) =>
      (sequence .square (value depth) inside).map fun (items, rest) => (arr items, rest)
    | some (.curly, inside) =>
      (sequence .curly (member (value depth)) inside).map fun (ms, rest) =>
        (((named? ms).map obj).getD (broken (taken s rest)), rest)
    | none => scalar s

def maxDepth : Nat := 127

/-- The value that a text writes, if it follows the grammar of JSON. What follows the grammar and
still cannot be read is broken: a number that is too large, a string or a name with half of a
surrogate pair, and whatever is in more than 127 brackets. -/
def parse? (s : String) : Option Json :=
  match value maxDepth (skipSpaces s.toList) with
  | some (j, rest) => if (skipSpaces rest).isEmpty then some j else none
  | none => none

end Noticeboard.Json
