import Formwork.Resolver

namespace Formwork

/-!
# Checking references

In a document without invocations, a form that carries `name: x` defines `x`, with its head as the
kind, and an atom `#x` refers to `x`. The document is a block that takes every definition; a form
whose head is a scope is a block that takes the kinds of that scope. A form lies in the block
around it, and what is inside the form in its own block, if it has one. A reference may come before
its definition.
-/

/-- Scope heads with the kinds of definitions that they take. -/
abbrev Scopes := List (String × List String)

/-- The kind of a definition or a reference. -/
structure ReferenceKind where
  word : String
  deriving DecidableEq, Repr

namespace ReferenceKind

/-- The kind that takes, and is met by, every kind. -/
def any : ReferenceKind := ⟨"*"⟩

instance : Kind ReferenceKind where
  accepts wanted given := wanted = any || wanted = given
  text := word

end ReferenceKind

/-- A reference with its definition. -/
structure Resolved where
  id : String
  /-- The reference. -/
  site : Node
  /-- The form that defines the identifier. -/
  target : Node

/-- The keyword that names what a form defines. -/
def nameWord : String := "name"

/-- The value of the first `name:` among nodes, when it is an atom that is not a keyword. -/
def nameAmong : List Node → Option String
  | [] => none
  | n :: ns =>
    if n.keyword? = some nameWord then
      match ns with
      | .atom a :: _ => if a.keyword?.isSome then none else some a.value
      | _ => none
    else
      nameAmong ns

/-- The identifier that a form defines. -/
def definedName? (form : Node) : Option String := nameAmong form.tail

/-- The state of checking. A requirement is tagged with its identifier and its site. -/
structure ReferenceChecker where
  scopes : Scopes := []
  resolver : Resolver ReferenceKind Node (String × Node) := .empty
  resolved : List Resolved := []
  failed : List Unresolved := []
  reports : List Report := []

namespace ReferenceChecker

/-- Goes on with a resolver, and keeps what it decided. -/
def settle (c : ReferenceChecker)
    (step : Resolver ReferenceKind Node (String × Node) × List (Outcome Node (String × Node))) :
    ReferenceChecker :=
  step.2.foldl
    (fun c outcome =>
      match outcome.result with
      | .ok target =>
        let met : Resolved := { id := outcome.tag.1, site := outcome.tag.2, target }
        { c with resolved := c.resolved ++ [met] }
      | .error failure => { c with failed := c.failed ++ [failure] })
    { c with resolver := step.1 }

/-- Requires the identifier of a reference. -/
def require (c : ReferenceChecker) (site : Node) (id : String) : ReferenceChecker :=
  c.settle (c.resolver.resolve site id .any (id, site))

/-- Defines what a form defines. -/
def define (c : ReferenceChecker) (form : Node) : ReferenceChecker :=
  match form.headName?, definedName? form with
  | some head, some id =>
    match c.resolver.define form id ⟨head⟩ form with
    | .ok step => c.settle step
    | .error report => { c with reports := c.reports ++ [report] }
  | _, _ => c

/-- The kinds that the block of a form takes, if the form has a block. -/
def scope? (c : ReferenceChecker) (form : Node) : Option (List ReferenceKind) :=
  (form.headName?.bind fun head => c.scopes.lookup head).map fun kinds => kinds.map .mk

/-- Opens the block of a form, if it has one. -/
def enter (c : ReferenceChecker) (form : Node) : ReferenceChecker :=
  match c.scope? form with
  | some kinds => { c with resolver := c.resolver.push kinds }
  | none => c

/-- Closes the block of a form, if it has one. -/
def leave (c : ReferenceChecker) (form : Node) : ReferenceChecker :=
  match c.scope? form with
  | some _ => c.settle c.resolver.pop
  | none => c

mutual

/-- Goes through a node. -/
def visit (c : ReferenceChecker) : Node → ReferenceChecker
  | .atom a =>
    match a.reference? with
    | some id => c.require (.atom a) id
    | none => c
  | .comment _ => c
  | .group d cs l s =>
    let form := Node.group d cs l s
    (visitAll ((c.define form).enter form) cs).leave form

/-- Goes through a list of nodes. -/
def visitAll (c : ReferenceChecker) : List Node → ReferenceChecker
  | [] => c
  | n :: ns => visitAll (visit c n) ns

end

/-- Checks a document: the state for the next document, the references that were met, in the order
    they were met, and the reports, those of references that were not met last. -/
def check (c : ReferenceChecker) (ns : List Node) :
    ReferenceChecker × List Resolved × List Report :=
  let opened := { c with resolver := c.resolver.push [.any] }
  let done := visitAll opened ns
  let closed := done.settle done.resolver.pop
  ({ closed with resolved := [], failed := [], reports := [] }, closed.resolved,
    closed.reports ++ closed.failed.map Unresolved.report)

end ReferenceChecker

/-- Checks a single document. -/
def checkReferences (scopes : Scopes) (ns : List Node) : List Resolved × List Report :=
  (ReferenceChecker.check { scopes } ns).2

end Formwork
