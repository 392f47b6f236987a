import Formwork.Event

namespace Formwork

/-!
# Comments

Taking comments out, of events and of nodes. In an event list the location of a comment goes with
it: a location is held back until the event it was set for is known to stay.

* `Node.filterComments_eventsAll` — for the events of nodes, the two are the same.
-/

/-- The events for a location that was held back. -/
def heldBack : Option Location → List Event
  | some l => [.locate l]
  | none => []

/-- The events with comments taken out unless `keep` is set. `held` is the location set last, which
    has not been passed on yet. -/
def filterCommentsFrom (keep : Bool) (held : Option Location) : List Event → List Event
  | [] => []
  | .locate l :: es => filterCommentsFrom keep (some l) es
  | .comment t :: es =>
    if keep then
      heldBack held ++ .comment t :: filterCommentsFrom keep none es
    else
      filterCommentsFrom keep none es
  | e :: es => heldBack held ++ e :: filterCommentsFrom keep none es

/-- The events with comments taken out unless `keep` is set. -/
def filterComments (keep : Bool) (es : List Event) : List Event :=
  filterCommentsFrom keep none es

namespace Node

mutual

/-- The node with the comments inside it taken out. -/
def uncommented : Node → Node
  | atom a => atom a
  | comment c => comment c
  | group d cs l s => group d (uncommentedAll cs) l s

/-- The nodes with the comments among and inside them taken out. -/
def uncommentedAll : List Node → List Node
  | [] => []
  | comment _ :: ns => uncommentedAll ns
  | atom a :: ns => atom a :: uncommentedAll ns
  | group d cs l s :: ns => group d (uncommentedAll cs) l s :: uncommentedAll ns

end

/-- The nodes that are left when comments are taken out unless `keep` is set. -/
def withComments (keep : Bool) (ns : List Node) : List Node :=
  if keep then ns else uncommentedAll ns

/-- Keeping the comments changes nothing. -/
@[simp] theorem withComments_true (ns : List Node) : withComments true ns = ns := rfl

/-- Not keeping them takes them out. -/
@[simp] theorem withComments_false (ns : List Node) : withComments false ns = uncommentedAll ns :=
  rfl

/-- Whether comments are kept is decided node by node. -/
theorem withComments_cons (keep : Bool) (n : Node) (ns : List Node) :
    withComments keep (n :: ns) = withComments keep [n] ++ withComments keep ns := by
  cases keep with
  | true => rfl
  | false => cases n <;> simp [uncommentedAll]

/-- A group stays, whatever becomes of the comments in it. -/
theorem withComments_group (keep : Bool) (d : Delim) (cs : List Node) (l s : Location) :
    withComments keep [group d cs l s] = [group d (withComments keep cs) l s] := by
  cases keep <;> simp [uncommentedAll]

/-! ### Events of nodes -/

mutual

/-- The events of a node come through as those of what is left of it. -/
theorem filterCommentsFrom_events (keep : Bool) : ∀ (n : Node) (es : List Event),
    filterCommentsFrom keep none (n.events ++ es)
      = eventsAll (withComments keep [n]) ++ filterCommentsFrom keep none es
  | .atom _, _ => by
    cases keep <;> simp [events, filterCommentsFrom, heldBack, uncommentedAll, eventsAll]
  | .comment _, _ => by
    cases keep <;> simp [events, filterCommentsFrom, heldBack, uncommentedAll, eventsAll]
  | .group d cs l s, es => by
    simp [events, filterCommentsFrom, heldBack, withComments_group, eventsAll,
      filterCommentsFrom_eventsAll keep cs]

/-- The events of nodes come through as those of what is left of them. -/
theorem filterCommentsFrom_eventsAll (keep : Bool) : ∀ (ns : List Node) (es : List Event),
    filterCommentsFrom keep none (eventsAll ns ++ es)
      = eventsAll (withComments keep ns) ++ filterCommentsFrom keep none es
  | [], _ => by cases keep <;> simp [uncommentedAll, eventsAll]
  | n :: ns, es => by
    rw [eventsAll, List.append_assoc, filterCommentsFrom_events keep n,
      filterCommentsFrom_eventsAll keep ns, withComments_cons keep n ns, eventsAll_append,
      List.append_assoc]

end

/-- **Taking comments out** of the events of nodes is taking them out of the nodes. -/
theorem filterComments_eventsAll (keep : Bool) (ns : List Node) :
    filterComments keep (eventsAll ns) = eventsAll (withComments keep ns) := by
  have h := filterCommentsFrom_eventsAll keep ns []
  rwa [List.append_nil, filterCommentsFrom, List.append_nil] at h

end Node

end Formwork
