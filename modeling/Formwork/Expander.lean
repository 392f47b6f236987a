import Formwork.Builder
import Formwork.Cutout
import Formwork.Rule.Basic

namespace Formwork

/-!
# Expanding invocations

An expander replaces every invocation of a rule by its expansion. The expansion goes through the
expander in turn, so rules may expand to other rules; arguments are expanded before the invocation
that receives them. A rule that comes up inside its own expansion is reported and expands to
nothing, and so do invocations nested too deep and those with wrong arguments.
-/

/-- The number of expansions that may be going on at once where nothing else is asked for. -/
def Expander.defaultMaxDepth : Nat := 128

/-- The rules, and the state of expanding with them. -/
structure Expander where
  /-- The rules, by distinct names. -/
  rules : List Rule := []
  /-- The number of expansions that may be going on at once, one inside another. -/
  maxDepth : Nat := Expander.defaultMaxDepth
  /-- The number of names made so far. It has no bound here: a counter in a machine word of 64 bits
      says the same as long as it stays below `Text.countBound`. -/
  made : Nat := 0
  /-- The rules whose expansions are going on, innermost first. -/
  active : List String := []
  reports : List Report := []

namespace Expander

/-- The rule with a name. -/
def rule? (x : Expander) (name : String) : Option Rule := x.rules.find? (·.name = name)

/-- Adds a rule, in place of an earlier one with its name. Made names are counted from the time
    their rule was added. -/
def register (x : Expander) (r : Rule) : Expander :=
  { x with
    rules := x.rules.filter (·.name ≠ r.name) ++ [r]
    made := match r with
      | .uniqueName => 0
      | _ => x.made }

/-- Adds rules, one after another. -/
def registerAll (x : Expander) (rs : List Rule) : Expander := rs.foldl register x

/-- Adds reports. -/
def report (x : Expander) (rs : List Report) : Expander := { x with reports := x.reports ++ rs }

/-- Why an invocation of a rule is not expanded, if it is not. -/
def refusal (x : Expander) (r : Rule) (inv : Invocation) : List Report :=
  if inv.name ∈ x.active then
    [.atNode (.recursiveExpansion inv.name) inv.node]
  else if x.maxDepth ≤ x.active.length then
    [.atNode (.expansionDepthExceeded x.maxDepth) inv.node]
  else
    r.shape.violations inv

/-- Expands an invocation of a rule, unless there is a reason not to. -/
def invoke (x : Expander) (r : Rule) (inv : Invocation) : Expander × Option (List Event) :=
  match x.refusal r inv with
  | [] =>
    let expansion := r.expand (x.made + 1) inv
    ({ x.report expansion.reports with
        made := x.made + r.names
        active := inv.name :: x.active }, some expansion.events)
  | refusal => (x.report refusal, none)

/-- Reads a group as an invocation and expands it. -/
def replace (x : Expander) (n : Node) : Expander × Option (List Event) :=
  match Invocation.ofNode n with
  | .error report => (x.report [report], none)
  | .ok inv =>
    match x.rule? inv.name with
    | none => (x, none)
    | some r => x.invoke r inv

/-- Cuts out invocations. -/
def cutter : Cutter Expander Builder where
  cut x head := (x, (x.rule? head).map fun _ => Builder.empty)
  paste x b :=
    match b.node? with
    | none => (x, none)
    | some n => x.replace n
  pasted x := { x with active := x.active.tail }

/-- Expands every invocation in a list of nodes. The rules that are active at once are distinct, so
    as many levels as there are rules are enough. -/
def expand (x : Expander) (ns : List Node) : Expander × List Event :=
  (cutter.run x.rules.length x (Node.eventsAll ns)).getD (x, [])

/-- The nodes that a list of nodes expands to. -/
def expandNodes (x : Expander) (ns : List Node) : Expander × List Node :=
  let (x, events) := x.expand ns
  (x, Builder.build events)

end Expander

end Formwork
