import Formwork.Node.Print

namespace Formwork

/-!
# Events

The flat form of a document. A `locate` event sets the location of the event after it, and the
events of a group stand between its two brackets. Every stage reads and writes event lists, and a
`Sink` is anything that takes them in one at a time.
-/

/-- One step of a document written flat. -/
inductive Event where
  | locate (location : Location)
  | opening (delim : Delim)
  | atom (value : String)
  | comment (text : String)
  | closing (delim : Delim)
  deriving DecidableEq, Repr, Inhabited

namespace Node

mutual

/-- The events of a node, each with its location before it. -/
def events : Node → List Event
  | atom a => [.locate a.location, .atom a.value]
  | comment c => [.locate c.location, .comment c.text]
  | group d cs l s =>
    .locate l :: .opening d :: (eventsAll cs ++ [.locate s, .closing d])

/-- The events of a list of nodes, one node after another. -/
def eventsAll : List Node → List Event
  | [] => []
  | n :: ns => events n ++ eventsAll ns

end

/-- The replay of a list of nodes is the replays of its nodes, one after another. -/
theorem eventsAll_eq_flatMap (ns : List Node) : eventsAll ns = ns.flatMap events := by
  induction ns with
  | nil => rfl
  | cons n ns ih => simp [eventsAll, ih]

/-- Replaying two lists in a row replays one and then the other. -/
@[simp] theorem eventsAll_append (ns ms : List Node) :
    eventsAll (ns ++ ms) = eventsAll ns ++ eventsAll ms := by
  simp [eventsAll_eq_flatMap]

end Node

/-! ### Sinks -/

/-- Something that takes events in, one at a time. -/
class Sink (β : Type) where
  receive : β → Event → β

namespace Sink

variable {β : Type} [Sink β]

/-- Takes in a list of events. -/
def feed (b : β) (events : List Event) : β := events.foldl receive b

@[simp] theorem feed_nil (b : β) : feed b [] = b := rfl

@[simp] theorem feed_cons (b : β) (e : Event) (es : List Event) :
    feed b (e :: es) = feed (receive b e) es := rfl

/-- Events may be fed in parts. -/
@[simp] theorem feed_append (b : β) (es fs : List Event) :
    feed b (es ++ fs) = feed (feed b es) fs := by
  simp [feed]

end Sink

end Formwork
