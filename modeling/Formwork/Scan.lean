import Formwork.Builder
import Formwork.Report

namespace Formwork

/-!
# Scanning

The scanner reads a text one character at a time and writes events.

* Blank characters separate atoms; brackets open and close groups, and a closing bracket has to
  match the innermost open one.
* A semicolon starts a comment, which runs to the end of the line.
* A quoted atom runs from quote to quote; a backslash takes the next character as it is.
* An unquoted atom ends before a blank, a bracket, a semicolon or a quote, and right after a colon
  that is not its first character: `key:value` is two atoms.

A closing bracket that matches nothing, and a group nested too deep, are reported once, and nothing
after them is read.
-/

/-- The number of groups that may be open at once where nothing else is asked for. -/
def Source.defaultLimit : Nat := 1024

/-- What a text is scanned as. -/
structure Source where
  /-- The name of the text. -/
  origin : String
  /-- Where the text is included, if it is. -/
  base : Option Location := none
  /-- The number of groups that may be open at once. -/
  limit : Nat := Source.defaultLimit

namespace Source

/-- The location of a mark of the text. -/
def locate (src : Source) (m : Mark) : Location :=
  let here := Location.ofMark src.origin m
  match src.base with
  | some base => base.via .inclusion here
  | none => here

end Source

/-! ### The state -/

/-- What the scanner is in the middle of. Characters are kept newest first. -/
inductive ScanMode where
  /-- Between atoms. -/
  | between
  /-- In an unquoted atom. -/
  | word (start : Mark) (chars : List Char)
  /-- In a quoted atom; `escaped` says that a backslash came just before. -/
  | quoted (start : Mark) (chars : List Char) (escaped : Bool)
  /-- In a comment. -/
  | comment (start : Mark) (chars : List Char)
  /-- Past an error after which nothing is read. -/
  | halted
  deriving DecidableEq, Repr

/-- The state of a scan. -/
structure Scanner where
  /-- The mark of the next character. -/
  mark : Mark := Mark.start
  mode : ScanMode := .between
  /-- The open groups, innermost first. -/
  groups : List Delim := []
  /-- The events written so far, newest first. -/
  events : List Event := []
  /-- The reports made so far, newest first. -/
  reports : List Report := []

namespace Scanner

/-- Writes an event with its location. -/
def send (s : Scanner) (l : Location) (e : Event) : Scanner :=
  { s with events := e :: .locate l :: s.events }

/-- Adds a report at a location. -/
def report (s : Scanner) (p : Problem) (l : Location) : Scanner :=
  { s with reports := .atLocation p l :: s.reports }

/-- Reads nothing any more. -/
def halt (s : Scanner) : Scanner := { s with mode := .halted }

/-- Goes on between atoms. -/
def between (s : Scanner) : Scanner := { s with mode := .between }

/-- Writes an atom from its characters, newest first. -/
def sendAtom (src : Source) (s : Scanner) (start : Mark) (chars : List Char) : Scanner :=
  s.send (src.locate start) (.atom (String.ofList chars.reverse))

/-- Writes a comment from its characters, newest first. -/
def sendComment (src : Source) (s : Scanner) (start : Mark) (chars : List Char) : Scanner :=
  s.send (src.locate start) (.comment (String.ofList chars.reverse))

/-! ### One character -/

/-- Whether `c` ends an unquoted atom before it. -/
def endsWord (c : Char) : Bool :=
  Text.isBlank c || c ∈ ['(', ')', '[', ']', ';', '"']

/-- Opens a group here. -/
def openGroup (src : Source) (s : Scanner) (d : Delim) : Scanner :=
  let here := src.locate s.mark
  if src.limit ≤ s.groups.length then
    (s.report (.nestingTooDeep src.limit) here).halt
  else
    { s with groups := d :: s.groups }.send here (.opening d)

/-- Closes a group here. -/
def closeGroup (src : Source) (s : Scanner) (d : Delim) : Scanner :=
  let here := src.locate s.mark
  match s.groups with
  | [] => (s.report (.unbalancedClose d.closing) here).halt
  | g :: gs =>
    if g = d then
      { s with groups := gs }.send here (.closing d)
    else
      ({ s with groups := gs }.report (.mismatchedClose g.closing d.closing) here).halt

/-- Reads a character between atoms. -/
def readBetween (src : Source) (s : Scanner) (c : Char) : Scanner :=
  if Text.isBlank c then
    s
  else
    match Delim.ofOpening? c, Delim.ofClosing? c with
    | some d, _ => s.openGroup src d
    | none, some d => s.closeGroup src d
    | none, none =>
      if c = ';' then { s with mode := .comment s.mark [] }
      else if c = '"' then { s with mode := .quoted s.mark [] false }
      else { s with mode := .word s.mark [c] }

/-- Reads a character, without moving on. -/
def read (src : Source) (s : Scanner) (c : Char) : Scanner :=
  match s.mode with
  | .between => s.readBetween src c
  | .halted => s
  | .comment start chars =>
    if c = '\n' ∨ c = '\r' then (s.sendComment src start chars).between
    else { s with mode := .comment start (c :: chars) }
  | .quoted start chars true => { s with mode := .quoted start (c :: chars) false }
  | .quoted start chars false =>
    if c = '"' then (s.sendAtom src start chars).between
    else if c = '\\' then { s with mode := .quoted start chars true }
    else { s with mode := .quoted start (c :: chars) false }
  | .word start chars =>
    if c = ':' then (s.sendAtom src start (c :: chars)).between
    else if endsWord c then (s.sendAtom src start chars).between.readBetween src c
    else { s with mode := .word start (c :: chars) }

/-- Reads a character and moves on to the next. -/
def step (src : Source) (s : Scanner) (c : Char) : Scanner :=
  { s.read src c with mark := s.mark.advance c }

/-! ### The end of the text -/

/-- Writes what the scanner is in the middle of. -/
def flush (src : Source) (s : Scanner) : Scanner :=
  match s.mode with
  | .between | .halted => s
  | .comment start chars => s.sendComment src start chars
  | .word start chars => s.sendAtom src start chars
  | .quoted start chars _ =>
    (s.report .unterminatedString (src.locate start)).sendAtom src start chars

/-- Ends the text: writes what is left and reports the groups still open. -/
def finish (src : Source) (s : Scanner) : Scanner :=
  let s' := s.flush src
  if s.mode = .halted ∨ s.groups = [] then s'
  else s'.report (.unclosedGroups s.groups.length) (src.locate s.mark)

end Scanner

/-! ### Whole texts -/

/-- What a scan gives: the events of the text and the reports made about it. -/
structure Scanned where
  events : List Event
  reports : List Report

/-- Scans the characters of a text. -/
def scanChars (src : Source) (cs : List Char) : Scanned :=
  let s := (cs.foldl (Scanner.step src) {}).finish src
  ⟨s.events.reverse, s.reports.reverse⟩

/-- Scans a text. -/
def scan (src : Source) (text : String) : Scanned := scanChars src text.toList

/-- The nodes of a scanned text, with the groups left open closed at the last location. -/
def Scanned.nodes (s : Scanned) : List Node := Builder.build s.events

/-- The nodes of a text and the reports made about it. -/
def parse (src : Source) (text : String) : List Node × List Report :=
  let s := scan src text
  (s.nodes, s.reports)

end Formwork
