namespace Formwork.Yaml

/-!
# Reading a YAML text

A cursor is a place in a text: what follows it, and its line and column, which indentation is about.
Lines end at a line feed, a carriage return or both, and at the Unicode characters for a next line,
a line separator and a paragraph separator; the last two are kept as they are in values.
-/

/-- Whether `c` is a space or a tab. -/
def isBlank (c : Char) : Bool := c = ' ' || c = '\t'

/-- Whether `c` ends a line. -/
def isBreak (c : Char) : Bool := c ∈ ['\n', '\r', '\u0085', '\u2028', '\u2029']

/-- Whether a text may hold `c`. -/
def isPrintable (c : Char) : Bool :=
  c ∈ ['\t', '\n', '\r', '\u0085'] || (0x20 ≤ c.toNat && c.toNat ≤ 0x7e) ||
    (0xa0 ≤ c.toNat && c.toNat ≤ 0xfffd) || 0x10000 ≤ c.toNat

/-- A place in a text. -/
structure Cursor where
  rest : List Char
  line : Nat := 0
  column : Nat := 0
  index : Nat := 0

namespace Cursor

/-- The character that follows after `n` others. -/
def peek (c : Cursor) (n : Nat) : Option Char := c.rest[n]?

/-- Whether a character holds `n` characters ahead. -/
def test (c : Cursor) (n : Nat) (p : Char → Bool) : Bool := (c.peek n).any p

/-- Whether a blank, a line break or the end of the text follows after `n` characters. -/
def gapAt (c : Cursor) (n : Nat) : Bool := (c.peek n).all fun x => isBlank x || isBreak x

/-- Moves on by `n` characters of the line. -/
def skip (c : Cursor) (n : Nat) : Cursor :=
  { c with rest := c.rest.drop n, column := c.column + n, index := c.index + n }

/-- Moves past a line break, and gives the break as it counts in a value. -/
def skipBreak (c : Cursor) : Cursor × List Char :=
  match c.rest with
  | '\r' :: '\n' :: rest => ({ rest, line := c.line + 1, index := c.index + 2 }, ['\n'])
  | x :: rest =>
    if isBreak x then
      ({ rest, line := c.line + 1, index := c.index + 1 },
        if x ∈ ['\u2028', '\u2029'] then [x] else ['\n'])
    else
      (c, [])
  | [] => (c, [])

/-- Moves past the characters of the line for which `p` holds. -/
def skipWhile (c : Cursor) (p : Char → Bool) : Cursor := c.skip (c.rest.takeWhile p).length

/-- Moves past the rest of the line, but not past its break. -/
def skipLine (c : Cursor) : Cursor := c.skipWhile fun x => !isBreak x

/-- Whether a line starts here with a mark that ends a document or starts one. -/
def atDocumentMark (c : Cursor) : Bool :=
  c.column = 0 && (c.rest.take 3 = ['-', '-', '-'] || c.rest.take 3 = ['.', '.', '.']) && c.gapAt 3

end Cursor

end Formwork.Yaml
