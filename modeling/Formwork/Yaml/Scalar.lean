import Formwork.Yaml.Cursor

namespace Formwork.Yaml

/-!
# YAML scalars

Plain, quoted and block scalars. In plain and quoted scalars a single line break counts as a space,
and of several breaks the first is left out; block scalars keep their lines, or fold them.
-/

/-- The blanks and line breaks between two parts of a scalar. -/
structure Gap where
  /-- The blanks, while there is no line break. -/
  blanks : List Char := []
  /-- The first line break; empty if it was taken away by a backslash. -/
  first : Option (List Char) := none
  /-- The further line breaks. -/
  more : List Char := []

namespace Gap

/-- The characters that a gap counts as. -/
def fold (g : Gap) : List Char :=
  match g.first with
  | none => g.blanks
  | some first =>
    if first ≠ ['\n'] then first ++ g.more
    else if g.more.isEmpty then [' ']
    else g.more

/-- Reads on through a gap. A tab must not stand left of `indent` on a new line. -/
def read : Nat → Nat → Cursor → Gap → Option (Cursor × Gap)
  | 0, _, _, _ => none
  | fuel + 1, indent, c, g =>
    match c.peek 0 with
    | none => some (c, g)
    | some x =>
      if isBlank x then
        if g.first.isSome then
          if x = '\t' && c.column < indent then none else read fuel indent (c.skip 1) g
        else
          read fuel indent (c.skip 1) { g with blanks := g.blanks ++ [x] }
      else if isBreak x then
        let (c, lineBreak) := c.skipBreak
        match g.first with
        | none => read fuel indent c { first := some lineBreak }
        | some _ => read fuel indent c { g with more := g.more ++ lineBreak }
      else
        some (c, g)

end Gap

/-! ### Plain scalars -/

/-- The brackets and the comma of flow collections. -/
def isFlowMark (c : Char) : Bool := c ∈ [',', '[', ']', '\x7b', '\x7d']

/-- The length of one part of a plain scalar, given how much of it is known and what follows. -/
def plainLength (flow : Bool) (known : Nat) : List Char → Option Nat
  | [] => some known
  | x :: rest =>
    if isBlank x || isBreak x then some known
    else if flow && x = ':' && rest.head?.any (fun y => isFlowMark y || y = '?') then none
    else if x = ':' && rest.head?.all (fun y => isBlank y || isBreak y) then some known
    else if flow && isFlowMark x then some known
    else plainLength flow (known + 1) rest

/-- Reads a plain scalar from its next part on: the value, and whether a line break follows it. The
    first number is more than the characters that are left. -/
def plainFrom (flow : Bool) (indent : Nat) :
    Nat → Cursor → List Char → Gap → Option (Cursor × List Char × Bool)
  | 0, _, _, _ => none
  | fuel + 1, c, value, gap => do
    if c.atDocumentMark || c.test 0 (· = '#') then
      return (c, value, gap.first.isSome)
    let length ← plainLength flow 0 c.rest
    let value := if length = 0 then value else value ++ gap.fold ++ c.rest.take length
    let gap : Gap := if length = 0 then gap else {}
    let c := c.skip length
    if !c.test 0 fun x => isBlank x || isBreak x then
      return (c, value, gap.first.isSome)
    let (c, gap) ← gap.read (fuel + 1) indent c
    if !flow && c.column < indent then
      return (c, value, gap.first.isSome)
    plainFrom flow indent fuel c value gap

/-! ### Quoted scalars -/

/-- The value of hexadecimal digits. -/
def hexValue? (cs : List Char) : Option Nat :=
  cs.foldlM
    (fun n c =>
      if c.isDigit then some (16 * n + (c.toNat - '0'.toNat))
      else if 'a' ≤ c && c ≤ 'f' then some (16 * n + (c.toNat - 'a'.toNat + 10))
      else if 'A' ≤ c && c ≤ 'F' then some (16 * n + (c.toNat - 'A'.toNat + 10))
      else none)
    0

/-- The character that a letter after a backslash stands for. -/
def escaped? : Char → Option Char
  | '0' => some '\x00'
  | 'a' => some '\x07'
  | 'b' => some '\x08'
  | 't' | '\t' => some '\t'
  | 'n' => some '\n'
  | 'v' => some '\x0b'
  | 'f' => some '\x0c'
  | 'r' => some '\r'
  | 'e' => some '\x1b'
  | ' ' => some ' '
  | '"' => some '"'
  | '/' => some '/'
  | '\\' => some '\\'
  | 'N' => some '\u0085'
  | '_' => some '\u00a0'
  | 'L' => some '\u2028'
  | 'P' => some '\u2029'
  | _ => none

/-- The number of digits after a letter that writes a character by its number. -/
def numbered? : Char → Option Nat
  | 'x' => some 2
  | 'u' => some 4
  | 'U' => some 8
  | _ => none

/-- Reads an escape after its backslash. -/
def readEscape (c : Cursor) : Option (Cursor × Char) := do
  let x ← c.peek 0
  match numbered? x with
  | none => return (c.skip 1, ← escaped? x)
  | some count =>
    let digits := (c.rest.drop 1).take count
    if digits.length ≠ count then
      none
    else
      let n ← hexValue? digits
      if n.isValidChar then return (c.skip (1 + count), Char.ofNat n) else none

/-- Reads one part of a quoted scalar, newest characters first, and whether a backslash took away
    the line break after it. -/
def quotedPart (single : Bool) : Nat → Cursor → List Char → Option (Cursor × List Char × Bool)
  | 0, _, _ => none
  | fuel + 1, c, chars =>
    match c.peek 0 with
    | none => some (c, chars, false)
    | some x =>
      if isBlank x || isBreak x then some (c, chars, false)
      else if single then
        if x ≠ '\'' then quotedPart single fuel (c.skip 1) (x :: chars)
        else if c.test 1 (· = '\'') then quotedPart single fuel (c.skip 2) ('\'' :: chars)
        else some (c, chars, false)
      else if x = '"' then some (c, chars, false)
      else if x ≠ '\\' then quotedPart single fuel (c.skip 1) (x :: chars)
      else if c.test 1 isBreak then some ((c.skip 1).skipBreak.1, chars, true)
      else
        match readEscape (c.skip 1) with
        | some (c, x) => quotedPart single fuel c (x :: chars)
        | none => none

/-- Reads a quoted scalar after its opening quote. The first number is more than the characters that
    are left. -/
def quotedFrom (single : Bool) : Nat → Cursor → List Char → Option (Cursor × List Char)
  | 0, _, _ => none
  | fuel + 1, c, value =>
    if c.atDocumentMark || c.rest.isEmpty then
      none
    else do
      let (c, part, joined) ← quotedPart single (fuel + 1) c []
      let value := value ++ part.reverse
      if !joined && c.test 0 (· = if single then '\'' else '"') then
        return (c.skip 1, value)
      let gap : Gap := { first := if joined then some [] else none }
      let (c, gap) ← gap.read (fuel + 1) 0 c
      quotedFrom single fuel c (value ++ gap.fold)

/-! ### Block scalars -/

/-- What is done with the line breaks at the end of a block scalar. -/
inductive Chomp where
  /-- They are left out. -/
  | strip
  /-- One is kept. -/
  | clip
  /-- All are kept. -/
  | keep
  deriving DecidableEq

/-- Reads the marks behind the `|` or `>` of a block scalar, in either order. -/
def blockMarks (c : Cursor) : Option (Cursor × Chomp × Option Nat) :=
  let chomp? (c : Cursor) : Option Chomp :=
    if c.test 0 (· = '+') then some .keep else if c.test 0 (· = '-') then some .strip else none
  let indent? (c : Cursor) : Option Nat :=
    (c.peek 0).bind fun x => if x.isDigit then some (x.toNat - '0'.toNat) else none
  let found : Cursor × Chomp × Option Nat :=
    match chomp? c, indent? c with
    | some chomp, _ =>
      match indent? (c.skip 1) with
      | some n => (c.skip 2, chomp, some n)
      | none => (c.skip 1, chomp, none)
    | none, some n =>
      match chomp? (c.skip 1) with
      | some chomp => (c.skip 2, chomp, some n)
      | none => (c.skip 1, .clip, some n)
    | none, none => (c, .clip, none)
  if found.2.2 = some 0 then none else some found

/-- Reads the indentation and the empty lines before a line of a block scalar. An indentation of
    zero is not known yet; `widest` is the widest one seen. -/
def blockBreaks (indent : Nat) : Nat → Cursor → Nat → List Char → Option (Cursor × Nat × List Char)
  | 0, _, _, _ => none
  | fuel + 1, c, widest, breaks =>
    let width := (c.rest.takeWhile (· = ' ')).length
    let c := c.skip (if indent = 0 then width else min width (indent - c.column))
    let widest := max widest c.column
    if (indent = 0 || c.column < indent) && c.test 0 (· = '\t') then
      none
    else if c.test 0 isBreak then
      let (c, lineBreak) := c.skipBreak
      blockBreaks indent fuel c widest (breaks ++ lineBreak)
    else
      some (c, widest, breaks)

/-- The indentation of a block scalar whose lines start no further than `widest`. -/
def blockIndent (parent : Int) (widest : Nat) : Nat := max (max widest (parent + 1).toNat) 1

/-- Reads the lines of a block scalar. `lineBreak` is the break of the line before, `breaks` those
    of the empty lines after it, and `blank` says that the line before starts with a blank. The
    first number is more than the characters that are left. -/
def blockLines (literal : Bool) (indent : Nat) :
    Nat → Cursor → List Char → List Char → List Char → Bool →
      Option (Cursor × List Char × List Char × List Char)
  | 0, _, _, _, _, _ => none
  | fuel + 1, c, value, lineBreak, breaks, blank =>
    if c.column ≠ indent || c.rest.isEmpty then
      some (c, value, lineBreak, breaks)
    else
      let blankNow := c.test 0 isBlank
      let between :=
        if !literal && lineBreak = ['\n'] && !blank && !blankNow then
          if breaks.isEmpty then [' '] else breaks
        else
          lineBreak ++ breaks
      let line := c.rest.takeWhile fun x => !isBreak x
      let (c, lineBreak) := (c.skip line.length).skipBreak
      match blockBreaks indent (fuel + 1) c 0 [] with
      | none => none
      | some (c, _, breaks) =>
        blockLines literal indent fuel c (value ++ between ++ line) lineBreak breaks blankNow

/-- Reads a block scalar after its `|` or `>`, inside a block with the indentation `parent`; there
    are fewer than `limit` characters left. -/
def readBlock (literal : Bool) (parent : Int) (limit : Nat) (c : Cursor) :
    Option (Cursor × List Char) := do
  let (c, chomp, increment) ← blockMarks c
  let c := c.skipWhile isBlank
  let c := if c.test 0 (· = '#') then c.skipLine else c
  if !(c.peek 0).all isBreak then
    none
  else
    let c := c.skipBreak.1
    let known := (increment.map fun n => parent.toNat + n).getD 0
    let (c, widest, breaks) ← blockBreaks known limit c 0 []
    let indent := if known = 0 then blockIndent parent widest else known
    let (c, value, lineBreak, breaks) ←
      blockLines literal indent limit c [] [] breaks false
    match chomp with
    | .strip => return (c, value)
    | .clip => return (c, value ++ lineBreak)
    | .keep => return (c, value ++ lineBreak ++ breaks)

end Formwork.Yaml
