import Formwork.Event

namespace Formwork

/-!
# Building nodes

A `Builder` turns events back into nodes. It keeps the finished top-level nodes and the groups that
are still open, both newest first. It takes any event list: a closing bracket closes the innermost
open group whatever its kind, and closes nothing when no group is open.
-/

/-- A group whose closing bracket has not come yet, with its children newest first. -/
structure OpenGroup where
  delim : Delim
  location : Location
  children : List Node := []

/-- The node of an open group that closes at `stop`. -/
def OpenGroup.close (g : OpenGroup) (stop : Location) : Node :=
  .group g.delim g.children.reverse g.location stop

/-- The nodes built so far. -/
structure Builder where
  /-- The location of the next event. -/
  here : Location := Location.nowhere
  /-- The finished top-level nodes, newest first. -/
  top : List Node := []
  /-- The open groups, innermost first. -/
  groups : List OpenGroup := []

namespace Builder

/-- A builder that has received nothing. -/
def empty : Builder := {}

/-- The number of open groups. -/
def depth (b : Builder) : Nat := b.groups.length

/-- Adds a finished node to the innermost open group, or at the top. -/
def push (b : Builder) (n : Node) : Builder :=
  match b.groups with
  | [] => { b with top := n :: b.top }
  | g :: gs => { b with groups := { g with children := n :: g.children } :: gs }

/-- Closes the innermost open group here. -/
def close (b : Builder) : Builder :=
  match b.groups with
  | [] => b
  | g :: gs => { b with groups := gs }.push (g.close b.here)

/-- Takes in one event. -/
def receive (b : Builder) : Event → Builder
  | .locate l => { b with here := l }
  | .opening d => { b with groups := { delim := d, location := b.here } :: b.groups }
  | .atom value => b.push (.atom (Atom.plain value b.here))
  | .comment text => b.push (.comment { text, location := b.here })
  | .closing _ => b.close

instance : Sink Builder := ⟨receive⟩

/-- Closes every open group here. -/
def closeAll (b : Builder) : Builder := b.groups.foldl (fun b _ => b.close) b

/-- The top-level nodes, with every open group closed here. -/
def nodes (b : Builder) : List Node := b.closeAll.top.reverse

/-- The first top-level node. -/
def node? (b : Builder) : Option Node := b.nodes.head?

/-- Where the outermost open group starts, if one is open. -/
def unclosed? (b : Builder) : Option Location := b.groups.getLast?.map OpenGroup.location

/-- The nodes that an event list builds. -/
def build (events : List Event) : List Node := (Sink.feed empty events).nodes

end Builder

end Formwork
