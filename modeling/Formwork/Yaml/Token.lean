import Formwork.Yaml.Tag

namespace Formwork.Yaml

/-!
# YAML tokens

The text as a sequence of tokens, with tokens for the start and the end of indented blocks. A simple
key, one without a question mark, is known to be a key only when its colon comes, so the lexer
remembers where a key could have started and puts the key token there then.
-/

/-- How a scalar is written. -/
inductive ScalarStyle where
  | plain
  | quoted
  | literal
  | folded
  deriving DecidableEq, Repr

/-- A token. -/
inductive Token where
  | documentStart
  | documentEnd
  | blockSequenceStart
  | blockMappingStart
  | blockEnd
  | flowSequenceStart
  | flowSequenceEnd
  | flowMappingStart
  | flowMappingEnd
  | blockEntry
  | flowEntry
  | key
  | value
  | alias (name : String)
  | anchor (name : String)
  | tag (name : Tag)
  | scalar (text : String) (style : ScalarStyle)
  | directive (d : Directive)
  | stop
  deriving DecidableEq, Repr

/-- A place where a simple key could have started. -/
structure SimpleKey where
  /-- The number of tokens before it. -/
  token : Nat
  line : Nat
  column : Nat
  index : Nat
  /-- Whether nothing but a key can stand there. -/
  required : Bool

/-- The state of reading tokens. -/
structure Lexer where
  cursor : Cursor
  /-- The tokens so far, newest first. -/
  tokens : List Token := []
  /-- The number of tokens so far. -/
  count : Nat := 0
  /-- The column of the innermost block; `-1` before the first. -/
  indent : Int := -1
  /-- The columns of the blocks around it. -/
  outer : List Int := []
  /-- Whether a simple key may start here. -/
  keyAllowed : Bool := true
  /-- The place of a possible simple key in the innermost flow collection, or in the block. -/
  simpleKey : Option SimpleKey := none
  /-- The places in the flow collections and the block around it. -/
  outerKeys : List (Option SimpleKey) := []

namespace Lexer

/-- Whether a flow collection is open. -/
def inFlow (s : Lexer) : Bool := !s.outerKeys.isEmpty

/-- Adds a token at the end. -/
def emit (s : Lexer) (t : Token) : Lexer :=
  { s with tokens := t :: s.tokens, count := s.count + 1 }

/-- Adds a token behind the first `place` tokens. -/
def insert (s : Lexer) (place : Nat) (t : Token) : Lexer :=
  let later := s.count - place
  { s with tokens := s.tokens.take later ++ t :: s.tokens.drop later, count := s.count + 1 }

/-- Moves the cursor past `n` characters. -/
def skip (s : Lexer) (n : Nat) : Lexer := { s with cursor := s.cursor.skip n }

/-! ### Blocks and keys -/

/-- Opens a block at a column, if that is right of the innermost one; its first token goes behind
    the first `place` tokens. -/
def roll (s : Lexer) (column place : Nat) (t : Token) : Lexer :=
  if !s.inFlow && s.indent < column then
    { s.insert place t with indent := column, outer := s.indent :: s.outer }
  else
    s

/-- Closes the blocks right of a column, given the blocks around the innermost one. -/
def unrollTo (column : Int) : List Int → Lexer → Lexer
  | [], s => s
  | i :: outer, s =>
    if column < s.indent then unrollTo column outer { s.emit .blockEnd with indent := i, outer }
    else s

/-- Closes the blocks right of a column. -/
def unroll (s : Lexer) (column : Int) : Lexer :=
  if s.inFlow then s else unrollTo column s.outer s

/-- Gives up a possible simple key; there is none to give up where a key is required. -/
def dropKey (s : Lexer) : Option Lexer :=
  if s.simpleKey.any (·.required) then none else some { s with simpleKey := none }

/-- Remembers that a simple key could start here. -/
def saveKey (s : Lexer) : Option Lexer :=
  if s.keyAllowed then
    s.dropKey.map fun s =>
      { s with
        simpleKey := some
          { token := s.count, line := s.cursor.line, column := s.cursor.column
            index := s.cursor.index
            required := !s.inFlow && s.indent = s.cursor.column } }
  else
    some s

/-- Whether a simple key that started earlier can still end here: on its line, and not far away. -/
def keyAlive (s : Lexer) (k : SimpleKey) : Bool :=
  k.line = s.cursor.line && s.cursor.index ≤ k.index + 1024

/-- Gives up a possible simple key that can no longer end here. -/
def checkKey (s : Lexer) : Option Lexer :=
  if s.simpleKey.all s.keyAlive then some s else s.dropKey

/-! ### Single tokens -/

/-- Moves past blanks, comments and line breaks to the next token. A tab does not indent, and a
    line may start with a byte order mark. -/
def toNextToken : Nat → Lexer → Lexer
  | 0, s => s
  | fuel + 1, s =>
    let tabs := s.inFlow || !s.keyAllowed
    let marked := s.cursor.column = 0 && s.cursor.test 0 (· = '\ufeff')
    let c := if marked then s.cursor.skip 1 else s.cursor
    let c := c.skipWhile fun x => x = ' ' || x = '\t' && tabs
    let c := if c.test 0 (· = '#') then c.skipLine else c
    if c.test 0 isBreak then
      toNextToken fuel
        { s with cursor := c.skipBreak.1, keyAllowed := s.keyAllowed || !s.inFlow }
    else
      { s with cursor := c }

/-- Ends the open blocks before a token that stands outside of all of them. -/
def closeBlocks (s : Lexer) : Option Lexer :=
  (s.unroll (-1)).dropKey.map fun s => { s with keyAllowed := false }

/-- Reads a directive with the rest of its line, which may hold a comment. -/
def directive (s : Lexer) : Option Lexer := do
  let s ← s.closeBlocks
  let (c, d) ← Directive.read? (s.cursor.skip 1)
  let c := c.skipWhile isBlank
  let c := if c.test 0 (· = '#') then c.skipLine else c
  if (c.peek 0).all isBreak then
    return { s.emit (.directive d) with cursor := c.skipBreak.1 }
  else
    none

/-- Reads a mark that starts or ends a document. -/
def documentMark (s : Lexer) : Option Lexer := do
  let s ← s.closeBlocks
  let t := if s.cursor.test 0 (· = '-') then Token.documentStart else .documentEnd
  return (s.skip 3).emit t

/-- Opens a flow collection. -/
def openFlow (s : Lexer) (t : Token) : Option Lexer :=
  s.saveKey.map fun s =>
    { (s.skip 1).emit t with
      keyAllowed := true, simpleKey := none, outerKeys := s.simpleKey :: s.outerKeys }

/-- Closes a flow collection. -/
def closeFlow (s : Lexer) (t : Token) : Option Lexer :=
  s.dropKey.map fun s =>
    let s := { (s.skip 1).emit t with keyAllowed := false }
    match s.outerKeys with
    | [] => s
    | k :: ks => { s with simpleKey := k, outerKeys := ks }

/-- Reads the comma of a flow collection. -/
def flowEntry (s : Lexer) : Option Lexer :=
  s.dropKey.map fun s => { (s.skip 1).emit .flowEntry with keyAllowed := true }

/-- Opens a block with `t` for a mark that stands by itself, where that is allowed. -/
def rollHere (s : Lexer) (t : Token) : Option Lexer :=
  if s.inFlow then some s
  else if s.keyAllowed then some (s.roll s.cursor.column s.count t)
  else none

/-- Reads the hyphen of a block sequence. -/
def blockEntry (s : Lexer) : Option Lexer := do
  let s ← (← s.rollHere .blockSequenceStart).dropKey
  return { (s.skip 1).emit .blockEntry with keyAllowed := true }

/-- Reads the question mark of a key. -/
def explicitKey (s : Lexer) : Option Lexer := do
  let s ← (← s.rollHere .blockMappingStart).dropKey
  return { (s.skip 1).emit .key with keyAllowed := !s.inFlow }

/-- Reads the colon between a key and its value. -/
def value (s : Lexer) : Option Lexer :=
  match s.simpleKey with
  | some k =>
    let s := (s.insert k.token .key).roll k.column k.token .blockMappingStart
    some { (s.skip 1).emit .value with keyAllowed := false, simpleKey := none }
  | none =>
    (s.rollHere .blockMappingStart).map fun s =>
      { (s.skip 1).emit .value with keyAllowed := !s.inFlow }

/-- Reads an anchor or an alias. -/
def named (s : Lexer) (t : String → Token) : Option Lexer := do
  let s := { (← s.saveKey).skip 1 with keyAllowed := false }
  let name := s.cursor.rest.takeWhile isNameChar
  let s := s.skip name.length
  if name.isEmpty || !(s.cursor.gapAt 0 || s.cursor.test 0 (· ∈ "?:,]\x7d%@\x60".toList)) then
    none
  else
    return s.emit (t (String.ofList name))

/-- Reads a tag. -/
def tag (s : Lexer) : Option Lexer := do
  let s := { ← s.saveKey with keyAllowed := false }
  let (c, t) ← Tag.read? s.cursor
  if c.gapAt 0 || s.inFlow && c.test 0 (· = ',') then
    return { s.emit (.tag t) with cursor := c }
  else
    none

/-- Reads a plain scalar where fewer than `limit` characters are left. -/
def plain (s : Lexer) (limit : Nat) : Option Lexer := do
  let s := { ← s.saveKey with keyAllowed := false }
  let (cursor, text, broken) ←
    plainFrom s.inFlow (s.indent + 1).toNat limit s.cursor [] {}
  return { s.emit (.scalar (String.ofList text) .plain) with cursor, keyAllowed := broken }

/-- Reads a quoted scalar where fewer than `limit` characters are left. -/
def quoted (s : Lexer) (single : Bool) (limit : Nat) : Option Lexer := do
  let s := { ← s.saveKey with keyAllowed := false }
  let (cursor, text) ← quotedFrom single limit (s.cursor.skip 1) []
  return { s.emit (.scalar (String.ofList text) .quoted) with cursor }

/-- Reads a block scalar where fewer than `limit` characters are left. -/
def block (s : Lexer) (literal : Bool) (limit : Nat) : Option Lexer := do
  let s := { ← s.dropKey with keyAllowed := true }
  let (cursor, text) ← readBlock literal s.indent limit (s.cursor.skip 1)
  let style := if literal then ScalarStyle.literal else .folded
  return { s.emit (.scalar (String.ofList text) style) with cursor }

/-- Ends the text. -/
def finish (s : Lexer) : Option Lexer := do
  let c := s.cursor
  let cursor := if c.column = 0 then c else { c with line := c.line + 1, column := 0 }
  let s ← { s with cursor }.closeBlocks
  return s.emit .stop

/-- Whether a plain scalar may start with `x` here. -/
def startsPlain (s : Lexer) (x : Char) : Bool :=
  if x = '-' then !s.cursor.gapAt 1
  else if x ∈ ['?', ':'] then !s.inFlow && !s.cursor.gapAt 1
  else !(isBlank x || isBreak x || x ∈ ",[]\x7b\x7d#&*!|>'\"%@\x60".toList)

/-- Reads the token that starts with `x`, where fewer than `limit` characters are left. -/
def readToken (s : Lexer) (limit : Nat) (x : Char) : Option Lexer :=
  let mark := s.inFlow || s.cursor.gapAt 1
  if x = '%' && s.cursor.column = 0 then s.directive
  else if s.cursor.atDocumentMark then s.documentMark
  else if x = '[' then s.openFlow .flowSequenceStart
  else if x = '\x7b' then s.openFlow .flowMappingStart
  else if x = ']' then s.closeFlow .flowSequenceEnd
  else if x = '\x7d' then s.closeFlow .flowMappingEnd
  else if x = ',' then s.flowEntry
  else if x = '-' && s.cursor.gapAt 1 then s.blockEntry
  else if x = '?' && mark then s.explicitKey
  else if x = ':' && mark then s.value
  else if x = '*' then s.named .alias
  else if x = '&' then s.named .anchor
  else if x = '!' then s.tag
  else if x = '|' && !s.inFlow then s.block true limit
  else if x = '>' && !s.inFlow then s.block false limit
  else if x = '\'' then s.quoted true limit
  else if x = '"' then s.quoted false limit
  else if s.startsPlain x then s.plain limit
  else none

/-- Reads tokens to the end of the text. Every token but the last takes a character, and the number
    is more than the characters that are left. -/
def run : Nat → Lexer → Option (List Token)
  | 0, _ => none
  | fuel + 1, s => do
    let s ← (toNextToken (fuel + 1) s).checkKey
    let s := s.unroll s.cursor.column
    match s.cursor.peek 0 with
    | none => return (← s.finish).tokens.reverse
    | some x => run fuel (← s.readToken (fuel + 1) x)

end Lexer

/-- The tokens of a text. -/
def tokens? (text : String) : Option (List Token) :=
  let chars := text.toList
  if chars.all isPrintable then
    Lexer.run (chars.length + 1) { cursor := { rest := chars } }
  else
    none

end Formwork.Yaml
