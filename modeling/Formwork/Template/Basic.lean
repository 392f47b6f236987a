import Formwork.Rule.Shape
import Formwork.Substitution

namespace Formwork

/-!
# Templates

`(template name (parameter...) body...)` defines a rule. A parameter is one of

* `@x`: the keyword argument `x:`, which has to be given;
* `[@x d]` or `[@x]`: the keyword argument `x:`, with the default `d` or nothing;
* `@1`: a positional argument that has to be given;
* `[@2 d]` or `[@2]`: a positional argument with a default;
* `@rest` or `[@rest d...]`: the positional arguments left over, with defaults for none.
-/

/-- What a parameter stands for when the caller leaves it out. -/
inductive Fallback where
  /-- The caller has to give it. -/
  | required
  /-- It stands for nothing. -/
  | nothing
  /-- It stands for a node. -/
  | value (node : Node)
  deriving Repr

namespace Fallback

/-- Whether the caller has to give the parameter. -/
def isRequired : Fallback → Bool
  | required => true
  | _ => false

/-- What is bound when the caller leaves the parameter out. -/
def bound? : Fallback → Option (List Node)
  | required => none
  | nothing => some []
  | value n => some [n]

/-- The fallback of a parameter written alone, or in a group with at most one default. -/
def ofDefaults? : Option (List Node) → Option Fallback
  | none => some required
  | some [] => some nothing
  | some [n] => some (value n)
  | some _ => none

end Fallback

/-- A template definition. -/
structure Template where
  name : String
  location : Location
  body : List Node := []
  /-- The keyword parameters, in the order they were declared. -/
  named : List (String × Fallback) := []
  /-- The positional parameters, from the first. -/
  positional : List Fallback := []
  /-- The defaults of the parameter for positional arguments left over, if it is declared. -/
  rest : Option (List Node) := none

namespace Template

/-- The head of a template definition. -/
def keyword : String := "template"

/-- The name of the parameter for positional arguments left over. -/
def restName : String := "rest"

/-- The arguments that an invocation of the template may carry. -/
def shape (t : Template) : Shape where
  name := t.name
  required := (t.named.filter (·.2.isRequired)).map Prod.fst
  allowed := t.named.map Prod.fst
  min := t.positional.countP Fallback.isRequired
  max := if t.rest.isSome then none else some t.positional.length

/-! ### Binding arguments -/

/-- The bindings of the keyword parameters. -/
def bindNamed (t : Template) (arguments : List (String × Node)) : Bindings :=
  t.named.filterMap fun (name, fallback) =>
    (((arguments.lookup name).map fun n => [n]).or fallback.bound?).map fun nodes => (name, nodes)

/-- The bindings of the positional parameters, the first of which has the given number. -/
def bindPositional : Nat → List Fallback → List Node → Bindings
  | _, [], _ => []
  | number, f :: fs, ns =>
    ((ns.head?.map fun n => [n]).or f.bound?).toList.map (fun nodes => (toString number, nodes)) ++
      bindPositional (number + 1) fs ns.tail

/-- The binding of the positional arguments left over. -/
def bindRest (t : Template) (remainder : List Node) : Bindings :=
  match t.rest with
  | none => []
  | some defaults =>
    let leftover := remainder.drop t.positional.length
    [(restName, if leftover.isEmpty then defaults else leftover)]

/-- The values of the parameters in an invocation. -/
def bind (t : Template) (inv : Invocation) : Bindings :=
  t.bindNamed inv.arguments ++ bindPositional 1 t.positional inv.remainder ++
    t.bindRest inv.remainder

/-- The body with the arguments of an invocation filled in. -/
def transform (t : Template) (inv : Invocation) : Substitution :=
  { callSite := inv.node.location, body := t.body, bindings := t.bind inv }

end Template

end Formwork
