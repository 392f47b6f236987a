import Formwork.Template.Basic
import Formwork.Text.Numeral

namespace Formwork.Template

/-!
# Reading template definitions

Positional parameters are numbered from 1 without gaps, and those that have to be given come first.
What is wrong with a definition or its parameters is reported, and there is no template then. A
placeholder of the body that is not declared is reported too, but the template still stands.
-/

/-! ### Parameters -/

/-- Declares the positional parameter with a number. -/
def declarePositional (t : Template) (malformed : Problem) (arg : String) (index : Nat)
    (defaults : Option (List Node)) : Except Problem Template :=
  if index ≠ t.positional.length + 1 then
    .error (.positionalOutOfOrder arg)
  else if defaults.isNone && t.positional.any (!·.isRequired) then
    .error (.mandatoryAfterOptional arg)
  else
    match Fallback.ofDefaults? defaults with
    | none => .error malformed
    | some fallback => .ok { t with positional := t.positional ++ [fallback] }

/-- Declares the parameter for positional arguments left over. -/
def declareRest (t : Template) (defaults : Option (List Node)) : Except Problem Template :=
  if t.rest.isSome then
    .error (.duplicateParameter restName)
  else
    .ok { t with rest := some (defaults.getD []) }

/-- Declares a keyword parameter. -/
def declareNamed (t : Template) (malformed : Problem) (arg : String)
    (defaults : Option (List Node)) : Except Problem Template :=
  if t.named.any (·.1 = arg) then
    .error (.duplicateParameter arg)
  else
    match Fallback.ofDefaults? defaults with
    | none => .error malformed
    | some fallback => .ok { t with named := t.named ++ [(arg, fallback)] }

/-- Declares a parameter by its name. A numeral that is not plain names no parameter. -/
def declareAs (t : Template) (malformed : Problem) (arg : String)
    (defaults : Option (List Node)) : Except Problem Template :=
  match Text.plainCount? arg with
  | some index => t.declarePositional malformed arg index defaults
  | none =>
    if (Text.count? arg).isSome then .error malformed
    else if arg = restName then t.declareRest defaults
    else t.declareNamed malformed arg defaults

/-- The name of a parameter, and its defaults if it is written as a group. -/
def readParameter (param : Node) : Option (String × Option (List Node)) :=
  match param with
  | .atom a => a.placeholder?.map fun arg => (arg, none)
  | .group .. => (param.head?.bind Node.placeholder?).map fun arg => (arg, some param.tail)
  | .comment _ => none

/-- Declares a parameter. -/
def declare (t : Template) (param : Node) : Except Report Template :=
  let malformed := Problem.malformedParameter param.text
  let declared : Except Problem Template :=
    match readParameter param with
    | none => .error malformed
    | some (arg, defaults) => t.declareAs malformed arg defaults
  declared.mapError fun problem => .atNode problem param

/-! ### The body -/

/-- What follows the first `count` nodes that are not comments. -/
def afterExprs : Nat → List Node → List Node
  | 0, ns => ns
  | _, [] => []
  | count + 1, n :: ns => if n.isComment then afterExprs (count + 1) ns else afterExprs count ns

/-- Whether a placeholder is declared. -/
def declares (t : Template) (arg : String) : Bool :=
  match Text.plainCount? arg with
  | some index => 1 ≤ index && index ≤ t.positional.length
  | none => if arg = restName then t.rest.isSome else t.named.any (·.1 = arg)

/-- Reports of the placeholders in the body that are not declared. -/
def unbound (t : Template) : List Report :=
  (t.body.flatMap Node.preorder).filterMap fun n =>
    match n.placeholder? with
    | some arg => if t.declares arg then none else some (.atNode (.unboundPlaceholder arg) n)
    | none => none

/-! ### Definitions -/

/-- Reads a definition: the template, and reports of the placeholders it does not declare; or a
    report of why there is no template. -/
def define (definition : Node) : Except Report (Template × List Report) :=
  match definition.exprs with
  | .atom head :: .atom name :: .group _ params _ _ :: _ =>
    if head.value = keyword then do
      let blank : Template := { name := name.value, location := definition.location }
      let declared ← (params.filter (!·.isComment)).foldlM declare blank
      let t := { declared with body := afterExprs 3 definition.children }
      return (t, t.unbound)
    else
      .error (.atNode .malformedTemplate definition)
  | _ => .error (.atNode .malformedTemplate definition)

end Formwork.Template
