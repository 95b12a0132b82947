namespace Noticeboard

/-- A JSON value. A number is an integer when it is written as one and fits into 64 bits, with or
without a sign; any other number, minus zero too, keeps the text that wrote it. So does a broken
value: its text follows the grammar, but says nothing that could be read. -/
inductive Json where
  | null
  | bool (b : Bool)
  | int (n : Int)
  | decimal (literal : String)
  | str (s : String)
  | arr (items : List Json)
  | obj (members : List (String × Json))
  | broken (text : String)
  deriving Inhabited

namespace Json

mutual

def isSound : Json → Bool
  | broken _ => false
  | arr items => areSound items
  | obj members => membersAreSound members
  | _ => true

def areSound : List Json → Bool
  | [] => true
  | item :: items => isSound item && areSound items

def membersAreSound : List (String × Json) → Bool
  | [] => true
  | (_, value) :: members => isSound value && membersAreSound members

end

def isInt64 (n : Int) : Bool :=
  Int64.minValue.toInt ≤ n && n < UInt64.size

def ofOption (write : α → Json) : Option α → Json
  | none => null
  | some a => write a

def present (name : String) (write : α → Json) : Option α → List (String × Json)
  | none => []
  | some a => [(name, write a)]

def strings (ss : List String) : Json :=
  arr (ss.map str)

def nat (n : Nat) : Json :=
  int n

def escape (c : Char) : String :=
  match c with
  | '"' => "\\\""
  | '\\' => "\\\\"
  | '\n' => "\\n"
  | '\r' => "\\r"
  | '\t' => "\\t"
  | '\x08' => "\\b"
  | '\x0c' => "\\f"
  | c =>
    if c.toNat < 0x10 then "\\u000" ++ String.ofList (Nat.toDigits 16 c.toNat)
    else if c.toNat < 0x20 then "\\u00" ++ String.ofList (Nat.toDigits 16 c.toNat)
    else c.toString

def quote (s : String) : String :=
  "\"" ++ String.join (s.toList.map escape) ++ "\""

mutual

def text : Json → String
  | null => "null"
  | bool b => if b then "true" else "false"
  | int n => toString n
  | decimal literal => literal
  | broken text => text
  | str s => quote s
  | arr items => "[" ++ ",".intercalate (itemTexts items) ++ "]"
  | obj members => "\x7b" ++ ",".intercalate (memberTexts members) ++ "\x7d"

def itemTexts : List Json → List String
  | [] => []
  | item :: items => text item :: itemTexts items

def memberTexts : List (String × Json) → List String
  | [] => []
  | (name, value) :: members => (quote name ++ ":" ++ text value) :: memberTexts members

end

end Json

end Noticeboard
