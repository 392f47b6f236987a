import Formwork.Comments
import Formwork.Expander
import Formwork.Include
import Formwork.Options.Basic
import Formwork.Template.Strip

namespace Formwork

/-!
# Processing documents

A document is scanned, its includes are replaced, comments are taken out if they are not to be
kept, template definitions are collected, invocations are expanded, and references are checked. A
report never stops a stage.
-/

/-- The nodes of a processed document and the reports made on the way. -/
structure Processed where
  nodes : List Node
  reports : List Report
  /-- The documents that were asked for, in order. -/
  consulted : List String := []

/-- A processed document with its references. -/
structure Checked where
  nodes : List Node
  resolved : List Resolved
  reports : List Report
  /-- The documents that were asked for, in order. -/
  consulted : List String := []

namespace Options

/-- The expander of a document that defines the given templates. -/
def expander (o : Options) (templates : List Template) : Expander :=
  ({ maxDepth := o.maxExpansionDepth } : Expander).registerAll
    ((if o.builtinRules then Rule.builtins else []) ++ templates.map Rule.template)

/-- Takes out comments, collects the templates and expands. -/
def expandNodes (o : Options) (ns : List Node) : List Node × List Report :=
  let filtered := Builder.build (filterComments o.keepComments (Node.eventsAll ns))
  let stripped := stripTemplates filtered
  let (x, nodes) := (o.expander stripped.templates).expandNodes (Builder.build stripped.events)
  (nodes, stripped.reports ++ x.reports)

/-- Scans a text without changing it. -/
def parse (o : Options) (origin text : String) : Processed :=
  let (nodes, reports) := Formwork.parse { origin, limit := o.maxNestingDepth } text
  { nodes, reports }

/-- Expands a text on its own. Include forms are left as they are. -/
def expandSource (o : Options) (origin text : String) : Processed :=
  let parsed := o.parse origin text
  let (nodes, reports) := o.expandNodes parsed.nodes
  { nodes, reports := parsed.reports ++ reports }

/-- Expands a root document and what it includes, if the includes end within the given levels. -/
def expandWithIncludes (o : Options) (docs : Documents) (levels : Nat) (id text : String) :
    Option Processed :=
  (includeSource docs levels id text o.maxNestingDepth).map fun loaded =>
    let (nodes, reports) := o.expandNodes loaded.nodes
    { nodes, reports := loaded.reports ++ reports, consulted := loaded.consulted }

/-- Expands a root document and checks its references, if the includes end within the given
    levels. -/
def check (o : Options) (docs : Documents) (levels : Nat) (id text : String) : Option Checked :=
  (o.expandWithIncludes docs levels id text).map fun p =>
    let (resolved, reports) := checkReferences o.scopes p.nodes
    { nodes := p.nodes, resolved, reports := p.reports ++ reports, consulted := p.consulted }

end Options

/-- The levels that includes are given when nothing else is said. Documents that are included in one
    another, and forms that are written inside one another, stay far below it. -/
def includeLevels : Nat := 1000000

end Formwork
