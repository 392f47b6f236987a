import Formwork.Event

namespace Formwork

/-!
# Substitution

The body of a template with its placeholders filled in. What comes from the body gets a location
that starts at the call, so that a report about it points there first. What comes from an argument
keeps its own location, and is not searched for placeholders again.
-/

/-- The values of placeholders, by name. -/
abbrev Bindings := List (String × List Node)

/-- The value of a placeholder. -/
def Bindings.value? (bindings : Bindings) (name : String) : Option (List Node) :=
  List.lookup name bindings

/-- A body bound to one call. -/
structure Substitution where
  callSite : Location
  body : List Node
  bindings : Bindings

namespace Substitution

/-- The nodes that an atom with the given value stands for, if it is a bound placeholder. -/
def bound? (s : Substitution) (value : String) : Option (List Node) :=
  match value.toList with
  | '@' :: name => s.bindings.value? (String.ofList name)
  | _ => none

/-- A location of the body, seen from the call. -/
def relocate (s : Substitution) (l : Location) : Location := s.callSite.via .template l

/-- What takes the place of one event of the body. -/
def replace (s : Substitution) : Event → List Event
  | .locate l => [.locate (s.relocate l)]
  | .atom v =>
    match s.bound? v with
    | some nodes => Node.eventsAll nodes
    | none => [.atom v]
  | e => [e]

/-- The events of the body with its placeholders filled in. -/
def events (s : Substitution) : List Event := (Node.eventsAll s.body).flatMap s.replace

mutual

/-- What takes the place of a node of the body. -/
def nodes (s : Substitution) : Node → List Node
  | .atom a =>
    match s.bound? a.value with
    | some nodes => nodes
    | none => [.atom { a with location := s.relocate a.location }]
  | .comment c => [.comment { c with location := s.relocate c.location }]
  | .group d cs l stop => [.group d (nodesAll s cs) (s.relocate l) (s.relocate stop)]

/-- What takes the place of a list of nodes of the body. -/
def nodesAll (s : Substitution) : List Node → List Node
  | [] => []
  | n :: ns => nodes s n ++ nodesAll s ns

end

end Substitution

end Formwork
