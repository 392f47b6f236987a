import Formwork.Yaml.Scalar

namespace Formwork.Yaml

/-!
# YAML tags

A tag names the kind of a value. It is written whole between angle brackets, or as a handle and a
suffix, where the handle stands for the start of the tag. Directives before a document say what its
handles stand for. Tags are octets: a percent sign and two hexadecimal digits write any of them.
-/

/-- The octets of a tag, or of a part of it. No octet of a tag is zero: the first zero ends it. -/
abbrev Octets := List UInt8

/-- The octets of a text of ASCII characters. -/
def octets (s : String) : Octets := s.toList.map fun c => c.toNat.toUInt8

/-- A tag as it is written. -/
structure Tag where
  /-- The handle with its exclamation marks; empty if the suffix is the whole tag. -/
  handle : String
  suffix : Octets
  deriving DecidableEq, Repr

/-- What is said about a document before it. -/
inductive Directive where
  /-- The version of the language. -/
  | version (major minor : Nat)
  /-- The start of the tags that are written with a handle. -/
  | handle (name : String) (start : Octets)
  deriving DecidableEq, Repr

/-! ### Octets -/

/-- Reads an octet that is written with a percent sign. -/
def readOctet (c : Cursor) : Option (Cursor × UInt8) :=
  match c.rest with
  | '%' :: a :: b :: _ => (hexValue? [a, b]).map fun n => (c.skip 3, n.toUInt8)
  | _ => none

/-- The number of octets after the first octet of a character. -/
def trailing? (first : UInt8) : Option Nat :=
  if first < 0x80 then some 0
  else if first < 0xc0 then none
  else if first < 0xe0 then some 1
  else if first < 0xf0 then some 2
  else if first < 0xf8 then some 3
  else none

/-- Reads the octets of a character after its first. -/
def readTrailing : Nat → Cursor → Option (Cursor × Octets)
  | 0, c => some (c, [])
  | count + 1, c => do
    let (c, x) ← readOctet c
    if 0x80 ≤ x && x < 0xc0 then
      let (c, xs) ← readTrailing count c
      return (c, x :: xs)
    else
      none

/-- Reads a character that is written by its octets. -/
def readOctets (c : Cursor) : Option (Cursor × Octets) := do
  let (c, x) ← readOctet c
  let (c, xs) ← readTrailing (← trailing? x) c
  return (c, x :: xs)

/-- Whether `c` may be part of the name of a handle or of an anchor. -/
def isNameChar (c : Char) : Bool := c.isAlphanum || c = '_' || c = '-'

/-- Whether `c` may be part of a tag. In a `wide` place there is more that may. -/
def isTagChar (wide : Bool) (c : Char) : Bool :=
  isNameChar c || c ∈ ";/?:@&=+$.!~*'()%".toList || wide && c ∈ [',', '[', ']']

/-- Reads the octets of a tag as far as they go, given those read so far. -/
def readTagFrom (wide : Bool) : Nat → Cursor → Octets → Option (Cursor × Octets)
  | 0, _, _ => none
  | fuel + 1, c, found =>
    match c.peek 0 with
    | none => some (c, found)
    | some x =>
      if !isTagChar wide x then some (c, found)
      else if x ≠ '%' then readTagFrom wide fuel (c.skip 1) (found ++ [x.toNat.toUInt8])
      else
        match readOctets c with
        | some (c, xs) => readTagFrom wide fuel c (found ++ xs)
        | none => none

/-- Reads the octets of a tag and takes those before the first zero. They follow on `head`; without
    it there has to be at least one character. -/
def readTag (wide : Bool) (head : Option Octets) (c : Cursor) : Option (Cursor × Octets) := do
  let (d, xs) ← readTagFrom wide (c.rest.length + 1) c (head.getD [])
  if head.isNone && d.index = c.index then none else return (d, xs.takeWhile (· ≠ 0))

/-! ### Handles -/

/-- Reads a handle, or what could be one: an exclamation mark, a name, and a second mark if there
    is one. -/
def readHandle (c : Cursor) : Option (Cursor × String) :=
  match c.rest with
  | '!' :: rest =>
    let name := rest.takeWhile isNameChar
    let mark := if (rest.drop name.length).head? = some '!' then ['!'] else []
    some (c.skip (1 + name.length + mark.length), String.ofList ('!' :: name ++ mark))
  | _ => none

/-- Whether a handle has both of its exclamation marks. -/
def isClosed (handle : String) : Bool :=
  1 < handle.length && handle.toList.getLast? = some '!'

/-- Reads a tag between angle brackets, after the opening one. -/
def readWholeTag (c : Cursor) : Option (Cursor × Tag) := do
  let (c, suffix) ← readTag true none c
  if c.test 0 (· = '>') then return (c.skip 1, { handle := "", suffix }) else none

/-- Reads a tag. What looks like a handle without its second mark belongs to the suffix, and an
    exclamation mark alone is a whole tag. -/
def Tag.read? (c : Cursor) : Option (Cursor × Tag) :=
  if c.test 1 (· = '<') then
    readWholeTag (c.skip 2)
  else do
    let (c, handle) ← readHandle c
    if isClosed handle then
      let (c, suffix) ← readTag false none c
      return (c, { handle, suffix })
    else
      let (c, suffix) ← readTag false (some ((octets handle).drop 1)) c
      return (c, if suffix.isEmpty then ⟨"", octets "!"⟩ else ⟨"!", suffix⟩)

/-- What handles stand for; the first entry of a handle counts. -/
abbrev Handles := List (String × Octets)

/-- What the tags of the language itself start with. -/
def coreTag : Octets := octets "tag:yaml.org,2002:"

/-- What handles stand for in every document that does not say otherwise. -/
def Handles.default : Handles := [("!", octets "!"), ("!!", coreTag)]

/-- The whole tag; there is none if its handle is unknown. -/
def Tag.resolve? (handles : Handles) (t : Tag) : Option Octets :=
  if t.handle.isEmpty then some t.suffix
  else (handles.lookup t.handle).map (· ++ t.suffix)

/-! ### Directives -/

/-- Reads a number of at most nine digits. -/
def readNumber (c : Cursor) : Option (Cursor × Nat) :=
  let digits := c.rest.takeWhile Char.isDigit
  if digits.isEmpty || 9 < digits.length then none
  else some (c.skip digits.length, Nat.ofDigitChars 10 digits 0)

/-- Reads the two numbers of a version. -/
def readVersion (c : Cursor) : Option (Cursor × Directive) := do
  let (c, major) ← readNumber (c.skipWhile isBlank)
  if c.test 0 (· = '.') then
    let (c, minor) ← readNumber (c.skip 1)
    return (c, .version major minor)
  else
    none

/-- Reads a handle and the start of tags that it stands for. -/
def readHandleStart (c : Cursor) : Option (Cursor × Directive) := do
  let (c, name) ← readHandle (c.skipWhile isBlank)
  if (name = "!" || isClosed name) && c.test 0 isBlank then
    let (c, start) ← readTag true none (c.skipWhile isBlank)
    if c.gapAt 0 then return (c, .handle name start) else none
  else
    none

/-- Reads a directive after its percent sign. -/
def Directive.read? (c : Cursor) : Option (Cursor × Directive) :=
  let name := c.rest.takeWhile isNameChar
  let c := c.skip name.length
  if !c.gapAt 0 then none
  else if name = "YAML".toList then readVersion c
  else if name = "TAG".toList then readHandleStart c
  else none

namespace Directive

/-- The version that a directive sets. -/
def version? : Directive → Option (Nat × Nat)
  | .version major minor => some (major, minor)
  | .handle _ _ => none

/-- The handle that a directive sets. -/
def handle? : Directive → Option (String × Octets)
  | .version _ _ => none
  | .handle name start => some (name, start)

/-- What handles stand for behind the directives of a document. A version is given at most once and
    is a known one, and a handle is set at most once. -/
def handles? (ds : List Directive) : Option Handles :=
  let versions := ds.filterMap version?
  let handles := ds.filterMap handle?
  if versions.length ≤ 1 && versions.all (· ∈ [(1, 1), (1, 2)]) &&
      (handles.map Prod.fst).Nodup then
    some (handles ++ .default)
  else
    none

end Directive

end Formwork.Yaml
