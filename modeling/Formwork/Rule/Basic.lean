import Formwork.Rule.Builtin
import Formwork.Template.Basic

namespace Formwork

/-!
# Rules

A rule replaces an invocation by its expansion, which it makes from the arguments alone. The rules
are the built-in ones and the templates.
-/

/-- What an invocation can be replaced by. -/
inductive Rule where
  | concat
  | uniqueName
  | template (t : Template)

/-- What takes the place of an invocation, and what was reported while making it. -/
structure Expansion where
  events : List Event
  reports : List Report := []

namespace Rule

/-- The built-in rules. -/
def builtins : List Rule := [concat, uniqueName]

/-- The arguments that an invocation may carry. -/
def shape : Rule → Shape
  | concat => Concat.shape
  | uniqueName => UniqueName.shape
  | template t => t.shape

/-- The head of the invocations that the rule replaces. -/
def name (r : Rule) : String := r.shape.name

/-- Expands an invocation. `number` is the number that a made name gets. -/
def expand (number : Nat) (inv : Invocation) : Rule → Expansion
  | concat =>
    let (n, reports) := Concat.transform inv
    { events := n.events, reports }
  | uniqueName =>
    let (n, reports) := UniqueName.transform number inv
    { events := n.events, reports }
  | template t => { events := (t.transform inv).events }

/-- The number of names that an expansion makes. -/
def names : Rule → Nat
  | uniqueName => 1
  | _ => 0

end Rule

end Formwork
