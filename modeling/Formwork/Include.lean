import Formwork.Cutout
import Formwork.Scan

namespace Formwork

/-!
# Includes

Three forms are replaced:

* `(include target)` by the nodes of the target document;
* `(include-modules target)` by its top-level `(~module ...)` forms only, and everything that the
  target includes is filtered the same way;
* `(no-include ...)` by its contents in the root document, and by nothing in an included one.

The text of an included document is scanned with the include form as the base of its locations. A
document that is already being included is not included again; that is reported, unless a module
include is going on. What a form is replaced by is searched for forms in turn, and forms can be put
together so that this never ends: then there is no result for any number of levels.
-/

/-! ### Documents -/

/-- Why an include form has no text. -/
inductive IncludeFailure where
  | noTarget
  | notFound (id : String)
  | unreadable (path reason : String)
  deriving DecidableEq, Repr

/-- The sentence that says why an include form has no text. -/
def IncludeFailure.message : IncludeFailure → String
  | noTarget => "the include names no document"
  | notFound id => s!"there is no document called {id}"
  | unreadable path reason => s!"cannot read {path}: {reason}"

/-- The first argument among nodes that is an atom. A keyword is passed over with its value. -/
def firstAtomArgument : List Node → Option String
  | [] => none
  | n :: ns =>
    match n.atom? with
    | none => firstAtomArgument ns
    | some a =>
      if a.keyword?.isSome then
        match ns with
        | [] => none
        | _ :: ns => firstAtomArgument ns
      else
        some a.value

/-- The target that an include form names. -/
def includeTarget (form : Node) : Except IncludeFailure String :=
  match firstAtomArgument form.tail with
  | some target => .ok target
  | none => .error .noTarget

/-- The documents that can be included. -/
structure Documents where
  /-- The document that an include form names. -/
  identify : Node → Except IncludeFailure String
  /-- The text of a document. -/
  fetch : String → Except IncludeFailure String

/-- Documents named by their targets. -/
def Documents.ofList (docs : List (String × String)) : Documents where
  identify := includeTarget
  fetch id :=
    match docs.lookup id with
    | some text => .ok text
    | none => .error (.notFound id)

/-! ### Replacing the forms -/

/-- A document whose nodes are going through. -/
structure Included where
  id : String
  modulesOnly : Bool
  deriving DecidableEq, Repr

/-- The state of replacing include forms. -/
structure Includer where
  /-- The root document, which must not be included. -/
  root : Option String := none
  /-- The nesting limit of included documents. -/
  limit : Nat := Source.defaultLimit
  /-- What is going through, innermost first: included documents, and nothing for the contents of
      a `no-include` form. -/
  stack : List (Option Included) := []
  /-- The documents that were asked for, newest first. -/
  consulted : List String := []
  reports : List Report := []

namespace Includer

/-- The head of a form that includes a document. -/
def includeWord : String := "include"

/-- The head of a form that includes the modules of a document. -/
def modulesWord : String := "include-modules"

/-- The head of a form that only counts in the root document. -/
def rootOnlyWord : String := "no-include"

/-- The head of a module. -/
def moduleWord : String := "~module"

/-- The documents whose nodes are going through, innermost first. -/
def included (s : Includer) : List Included := s.stack.filterMap id

/-- Whether no included document is going through. -/
def inRoot (s : Includer) : Bool := s.included.isEmpty

/-- Whether a module include is going through. -/
def filtering (s : Includer) : Bool := s.included.any (·.modulesOnly)

/-- Whether a document is the root or is going through. -/
def isActive (s : Includer) (id : String) : Bool :=
  s.root = some id || s.included.any (·.id = id)

/-- Adds reports. -/
def report (s : Includer) (rs : List Report) : Includer := { s with reports := s.reports ++ rs }

/-- Whether a top-level node of a document is kept by a module include. Includes are kept for the
    modules that they lead to. -/
def keptByModules (n : Node) : Bool :=
  n.headName? ∈ [some moduleWord, some includeWord, some modulesWord]

/-- The nodes that take the place of a form that includes a text. -/
def spliced (s : Includer) (form : Node) (id text : String) (modulesOnly : Bool) :
    List Node × List Report :=
  let (nodes, reports) :=
    parse { origin := id, base := some form.location, limit := s.limit } text
  (if modulesOnly then nodes.filter keptByModules else nodes, reports)

/-- Replaces a form that includes a document. -/
def includeDocument (docs : Documents) (s : Includer) (form : Node) (modulesOnly : Bool) :
    Includer × Option (List Event) :=
  let unresolvable (why : IncludeFailure) : Report :=
    .atNode (.unresolvableInclude why.message) form
  match docs.identify form with
  | .error why => (s.report [unresolvable why], none)
  | .ok id =>
    if s.isActive id then
      (if s.filtering then s else s.report [.atNode (.recursiveInclude id) form], none)
    else
      let s := { s with consulted := id :: s.consulted }
      match docs.fetch id with
      | .error why => (s.report [unresolvable why], none)
      | .ok text =>
        let (nodes, reports) := s.spliced form id text modulesOnly
        ({ s.report reports with stack := some { id, modulesOnly } :: s.stack },
          some (Node.eventsAll nodes))

/-- Replaces a form. -/
def replace (docs : Documents) (s : Includer) (form : Node) : Includer × Option (List Event) :=
  match form.headName? with
  | none => (s, none)
  | some head =>
    if head = rootOnlyWord then
      if s.inRoot then
        ({ s with stack := none :: s.stack }, some (Node.eventsAll form.tail))
      else
        (s, none)
    else
      s.includeDocument docs form (head = modulesWord || s.filtering)

/-- Cuts out include forms. -/
def cutter (docs : Documents) : Cutter Includer Builder where
  cut s head :=
    (s, if head ∈ [includeWord, modulesWord, rootOnlyWord] then some Builder.empty else none)
  paste s b :=
    match b.node? with
    | some form => s.replace docs form
    | none => (s, none)
  pasted s := { s with stack := s.stack.tail }

/-- Replaces the include forms in a list of nodes, if that ends within the given levels. -/
def process (docs : Documents) (levels : Nat) (s : Includer) (ns : List Node) :
    Option (Includer × List Event) :=
  (cutter docs).run levels s (Node.eventsAll ns)

end Includer

/-! ### Whole documents -/

/-- A root document with its includes replaced. -/
structure Loaded where
  nodes : List Node
  reports : List Report
  /-- The documents that were asked for, in order. -/
  consulted : List String

/-- Scans a text as the root document `id` and replaces its include forms, if that ends within the
    given levels. -/
def includeSource (docs : Documents) (levels : Nat) (id text : String) (limit : Nat) :
    Option Loaded :=
  let (nodes, reports) := parse { origin := id, limit } text
  (Includer.process docs levels { root := some id, limit, reports } nodes).map fun (s, events) =>
    { nodes := Builder.build events, reports := s.reports, consulted := s.consulted.reverse }

/-- Loads the root document `id` and everything it includes. -/
def loadDocument (docs : Documents) (levels : Nat) (id : String) : Option Loaded :=
  match docs.fetch id with
  | .error why =>
    some
      { nodes := [], reports := [{ problem := .unresolvableInclude why.message }],
        consulted := [id] }
  | .ok text =>
    (includeSource docs levels id text Source.defaultLimit).map fun l =>
      { l with consulted := id :: l.consulted }

end Formwork
