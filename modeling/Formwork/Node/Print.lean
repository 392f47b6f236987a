import Formwork.Node.Basic
import Formwork.Text.Blank

namespace Formwork

/-!
# The printed form of nodes

An atom prints as its value, in quotes when it is flagged as quoted; a quote or a backslash inside
quotes has a backslash before it. A comment prints with a line feed, so that what follows it is not
swallowed. The children of a group and the nodes of a document are separated by single spaces.
-/

/-! ### Quoting -/

/-- The characters that no unquoted atom holds. -/
def needsQuotesAt (c : Char) : Bool :=
  Text.isBlank c || c ∈ ['(', ')', '[', ']', ';', '"', '\\']

/-- Whether a value can only be written in quotes. A colon ends an unquoted atom, so it may only be
    the last character. -/
def needsQuotes (cs : List Char) : Bool :=
  cs.isEmpty || cs.dropLast.contains ':' || cs.any needsQuotesAt

/-- A character inside quotes: a quote or a backslash has a backslash before it. -/
def escapeChar (c : Char) : List Char :=
  if c = '"' ∨ c = '\\' then ['\\', c] else [c]

/-- The inside of a quoted atom with the given value. -/
def escape (cs : List Char) : List Char := cs.flatMap escapeChar

/-- The atom with a value at a location, quoted exactly when its value needs it. -/
def Atom.plain (value : String) (location : Location) : Atom :=
  { value, quoted := needsQuotes value.toList, location }

/-- The characters an atom prints as. -/
def Atom.chars (a : Atom) : List Char :=
  if a.quoted then '"' :: (escape a.value.toList ++ ['"']) else a.value.toList

/-- The printed form of an atom. -/
def Atom.text (a : Atom) : String := String.ofList a.chars

/-! ### Nodes -/

namespace Node

mutual

/-- The characters a node prints as. -/
def chars : Node → List Char
  | atom a => a.chars
  | comment c => ';' :: (c.text.toList ++ ['\n'])
  | group d cs _ _ => d.opening :: (charsAll cs ++ [d.closing])

/-- The characters a list of nodes prints as, separated by single spaces. -/
def charsAll : List Node → List Char
  | [] => []
  | n :: ns => chars n ++ charsAfter ns

/-- The characters of further nodes, each with a space before it. -/
def charsAfter : List Node → List Char
  | [] => []
  | n :: ns => ' ' :: (chars n ++ charsAfter ns)

end

/-- The printed form of a node. -/
def text (n : Node) : String := String.ofList n.chars

/-- The printed form of a list of nodes. -/
def textAll (ns : List Node) : String := String.ofList (charsAll ns)

/-- The characters of a list of nodes printed one to a line. -/
def lineChars (ns : List Node) : List Char :=
  ns.flatMap fun n => if n.isComment then n.chars else n.chars ++ ['\n']

/-- The nodes printed one to a line. A comment brings its own line end. -/
def lines (ns : List Node) : String := String.ofList (lineChars ns)

end Node

end Formwork
