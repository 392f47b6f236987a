namespace Formwork

/-!
# Locations

A `Mark` is a point of a text, a `Position` a mark of a named text, and a `Location` a chain of
positions. The first position of a chain is the outermost one, where the document in hand includes
another text or calls a template; the last one is where the characters were written. The `Hop` of a
position says how the chain goes on behind it.
-/

/-! ### Marks -/

/-- A point of a text: a byte offset, a line and a column. Lines and columns count from 1, columns
    in characters. -/
structure Mark where
  offset : Nat
  line : Nat
  column : Nat
  deriving DecidableEq, Repr, Inhabited

namespace Mark

/-- The mark of the first character of a text. -/
def start : Mark := ⟨0, 1, 1⟩

/-- The mark of the character after `c`. Only a line feed ends a line. -/
def advance (m : Mark) (c : Char) : Mark :=
  if c = '\n' then
    ⟨m.offset + c.utf8Size, m.line + 1, 1⟩
  else
    ⟨m.offset + c.utf8Size, m.line, m.column + 1⟩

end Mark

/-! ### Positions -/

/-- How a position leads on to the next one of its chain. -/
inductive Hop where
  /-- Nothing is crossed. -/
  | normal
  /-- The text at the position included another document. -/
  | inclusion
  /-- The text at the position called a template. -/
  | template
  deriving DecidableEq, Repr, Inhabited

/-- The word for a hop. -/
def Hop.text : Hop → String
  | .normal => "normal"
  | .inclusion => "include"
  | .template => "template"

/-- A point of a named text. -/
structure Position where
  origin : String
  mark : Mark
  hop : Hop := .normal
  deriving DecidableEq, Repr, Inhabited

/-- A position as `origin:line:column`. -/
def Position.text (p : Position) : String :=
  s!"{p.origin}:{p.mark.line}:{p.mark.column}"

/-! ### Chains -/

/-- A chain of positions, outermost first. -/
structure Location where
  chain : List Position
  deriving DecidableEq, Repr, Inhabited

namespace Location

/-- The location of a single mark. -/
def ofMark (origin : String) (mark : Mark) : Location := ⟨[{ origin, mark }]⟩

/-- The location of what never stood in any text. -/
def nowhere : Location := ofMark "<nowhere>" ⟨0, 0, 0⟩

/-- A chain with the hop of its last position replaced. -/
def relink (hop : Hop) : List Position → List Position
  | [] => []
  | [p] => [{ p with hop }]
  | p :: q :: rest => p :: relink hop (q :: rest)

/-- Crosses from `l` into `inner`: the last position of `l` takes `hop`, and the positions of
    `inner` follow it. -/
def via (l : Location) (hop : Hop) (inner : Location) : Location :=
  ⟨relink hop l.chain ++ inner.chain⟩

/-- The position that a report points at first. -/
def outermost? (l : Location) : Option Position := l.chain.head?

/-- The position where the characters were written. -/
def innermost? (l : Location) : Option Position := l.chain.getLast?

/-- The byte offset that a report points at first. -/
def offset (l : Location) : Nat :=
  match l.outermost? with
  | some p => p.mark.offset
  | none => 0

/-- The number of positions. -/
def depth (l : Location) : Nat := l.chain.length

/-- Whether some position of the chain goes on by `hop`. -/
def crosses (l : Location) (hop : Hop) : Bool := l.chain.any (·.hop = hop)

/-- The text of one link: the position, and its hop unless that is normal. -/
def linkText (p : Position) : String :=
  if p.hop = .normal then p.text else s!"{p.text} ({p.hop.text})"

/-- The positions from the outermost to the innermost, joined by arrows. -/
def text (l : Location) : String :=
  " -> ".intercalate (l.chain.map linkText)

@[simp] theorem chain_via (l inner : Location) (hop : Hop) :
    (l.via hop inner).chain = relink hop l.chain ++ inner.chain := rfl

@[simp] theorem length_relink (hop : Hop) (ps : List Position) :
    (relink hop ps).length = ps.length := by
  fun_induction relink hop ps with
  | case1 => rfl
  | case2 => rfl
  | case3 p q rest ih => simp [ih]

theorem depth_via (l inner : Location) (hop : Hop) :
    (l.via hop inner).depth = l.depth + inner.depth := by
  simp [depth]

end Location

end Formwork
