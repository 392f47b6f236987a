import Formwork.Rule.Shape

namespace Formwork

/-!
# Built-in rules

`concat` joins atoms to one atom, and `unique-name` makes an atom with a number that no other
invocation gets. An argument that is not an atom is reported and left out.
-/

/-- A report of an argument that a built-in rule cannot use. -/
def unusable (name message : String) (n : Node) : Report :=
  .atNode (.macroArgument name message) n

/-! ### Joining atoms -/

namespace Concat

/-- `(concat part... separator: s)` -/
def shape : Shape :=
  { name := "concat", required := [], allowed := ["separator"], min := 1, max := none }

/-- The text between two parts, and a report if it is not an atom. -/
def separator (inv : Invocation) : String × List Report :=
  match inv.argument? "separator" with
  | none => ("", [])
  | some (.atom a) => (a.value, [])
  | some n => ("", [unusable shape.name "the separator should be an atom" n])

/-- The values of the parts. -/
def parts (inv : Invocation) : List String :=
  inv.remainder.filterMap fun n => n.atom?.map Atom.value

/-- Reports of the parts that are not atoms. -/
def unjoinable (inv : Invocation) : List Report :=
  (inv.remainder.filter fun n => n.atom?.isNone).map
    (unusable shape.name "only atoms can be joined")

/-- The joined atom, and what was reported on the way. -/
def transform (inv : Invocation) : Node × List Report :=
  let (between, reports) := separator inv
  (.atom (Atom.plain (between.intercalate (parts inv)) inv.node.location),
    unjoinable inv ++ reports)

end Concat

/-! ### Making names -/

namespace UniqueName

/-- `(unique-name stem)` -/
def shape : Shape :=
  { name := "unique-name", required := [], allowed := [], min := 0, max := some 1 }

/-- The first part of the name, and a report if it is not an atom. -/
def stem (inv : Invocation) : String × List Report :=
  match inv.remainder with
  | [] => (shape.name, [])
  | .atom a :: _ => (a.value, [])
  | n :: _ => (shape.name, [unusable shape.name "the name stem should be an atom" n])

/-- The name with a number. -/
def nameText (stem : String) (number : Nat) : String := s!"*{stem}-{number}*"

/-- The atom with a number, and what was reported on the way. -/
def transform (number : Nat) (inv : Invocation) : Node × List Report :=
  let (stem, reports) := stem inv
  (.atom (Atom.plain (nameText stem number) inv.node.location), reports)

end UniqueName

end Formwork
