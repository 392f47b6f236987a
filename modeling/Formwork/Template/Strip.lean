import Formwork.Builder
import Formwork.Cutout
import Formwork.Template.Define

namespace Formwork

/-!
# Collecting template definitions

Definitions are cut out of the document wherever they stand, and nothing takes their place. The
first definition of a name counts; a later one is reported.
-/

/-- The templates collected so far, in the order their definitions closed. -/
structure Stripper where
  templates : List Template := []
  reports : List Report := []

namespace Stripper

/-- Reads a definition and keeps its template. -/
def collect (s : Stripper) (definition : Node) : Stripper :=
  match Template.define definition with
  | .error report => { s with reports := s.reports ++ [report] }
  | .ok (t, unbound) =>
    if s.templates.any (·.name = t.name) then
      { s with
        reports := s.reports ++ unbound ++ [.atNode (.duplicateTemplate t.name) definition] }
    else
      { templates := s.templates ++ [t], reports := s.reports ++ unbound }

/-- Cuts out definitions. -/
def cutter : Cutter Stripper Builder where
  cut s head := (s, if head = Template.keyword then some Builder.empty else none)
  paste s b :=
    match b.node? with
    | some definition => (s.collect definition, none)
    | none => (s, none)
  pasted s := s

end Stripper

/-- What is left of a document without its definitions, and the templates they define. -/
structure Stripped where
  templates : List Template
  events : List Event
  reports : List Report

/-- Takes the template definitions out of a list of nodes. Nothing ever takes the place of a
    definition, so no levels are needed. -/
def stripTemplates (ns : List Node) : Stripped :=
  match Stripper.cutter.run 0 {} (Node.eventsAll ns) with
  | some (s, events) => { templates := s.templates, events, reports := s.reports }
  | none => { templates := [], events := [], reports := [] }

end Formwork
