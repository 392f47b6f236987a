import Formwork.Text.Numeral

namespace Formwork

/-!
# JSON values

A JSON value with its fields in the order they were written, its indented text, and how records are
read: a record is written as an object, or as a list of its values in the order of its fields.
-/

/-- A JSON value. -/
inductive Json where
  | null
  | bool (b : Bool)
  /-- A count. -/
  | number (n : Nat)
  /-- A number that is no count, as it was written. -/
  | otherNumber (literal : String)
  | text (s : String)
  | list (values : List Json)
  | object (fields : List (String × Json))
  deriving Repr, Inhabited

namespace Json

/-! ### Text -/

/-- The hexadecimal digits. -/
def hexDigit (n : Nat) : Char := "0123456789abcdef".toList.getD n '0'

/-- A character inside a JSON string. -/
def escapeChar (c : Char) : List Char :=
  match c with
  | '"' => ['\\', '"']
  | '\\' => ['\\', '\\']
  | '\n' => ['\\', 'n']
  | '\r' => ['\\', 'r']
  | '\t' => ['\\', 't']
  | '\x08' => ['\\', 'b']
  | '\x0c' => ['\\', 'f']
  | c =>
    if c.toNat < 0x20 then
      ['\\', 'u', '0', '0', hexDigit (c.toNat / 16), hexDigit (c.toNat % 16)]
    else
      [c]

/-- A JSON string. -/
def quote (s : String) : String := String.ofList ('"' :: (s.toList.flatMap escapeChar ++ ['"']))

/-- The start of a line, indented by a number of steps. -/
def lineStart (depth : Nat) : String := "\n" ++ "".pushn ' ' (2 * depth)

mutual

/-- The indented text of a value that stands at a depth. -/
def pretty (depth : Nat) : Json → String
  | null => "null"
  | bool b => if b then "true" else "false"
  | number n => toString n
  | otherNumber literal => literal
  | text s => quote s
  | list [] => "[]"
  | list (v :: vs) =>
    "[" ++ lineStart (depth + 1) ++ pretty (depth + 1) v ++ prettyItems (depth + 1) vs ++
      lineStart depth ++ "]"
  | object [] => "\x7b\x7d"
  | object ((k, v) :: fs) =>
    "\x7b" ++ lineStart (depth + 1) ++ quote k ++ ": " ++ pretty (depth + 1) v ++
      prettyFields (depth + 1) fs ++ lineStart depth ++ "\x7d"

/-- The further values of a list, each on a line of its own. -/
def prettyItems (depth : Nat) : List Json → String
  | [] => ""
  | v :: vs => "," ++ lineStart depth ++ pretty depth v ++ prettyItems depth vs

/-- The further fields of an object, each on a line of its own. -/
def prettyFields (depth : Nat) : List (String × Json) → String
  | [] => ""
  | (k, v) :: fs =>
    "," ++ lineStart depth ++ quote k ++ ": " ++ pretty depth v ++ prettyFields depth fs

end

/-! ### Reading -/

/-- The value, if it is a flag. -/
def bool? : Json → Option Bool
  | bool b => some b
  | _ => none

/-- The value, if it is a count of 64 bits. -/
def count? : Json → Option Nat
  | number n => if n < Text.countBound then some n else none
  | _ => none

/-- The value, if it is a text. -/
def text? : Json → Option String
  | text s => some s
  | _ => none

/-- The values, if it is a list. -/
def list? : Json → Option (List Json)
  | list vs => some vs
  | _ => none

/-- The fields, if it is an object. -/
def object? : Json → Option (List (String × Json))
  | object fs => some fs
  | _ => none

/-- The values of a record with the given fields, in their order. Other fields of an object are left
    aside; a list has exactly one value for each field. -/
def record? (names : List String) : Json → Option (List Json)
  | object fs => names.mapM fun name => fs.lookup name
  | list vs => if vs.length = names.length then some vs else none
  | _ => none

/-- The word of a choice without further content. -/
def choice? : Json → Option String
  | text s => some s
  | object [(s, null)] => some s
  | object [(s, object [])] => some s
  | _ => none

end Json

end Formwork
