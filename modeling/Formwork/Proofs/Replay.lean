import Formwork.Builder
import Formwork.Comments
import Mathlib.Data.List.Basic

namespace Formwork

/-!
# Building what is replayed

A builder that takes in the events of nodes ends up with these nodes, each atom quoted exactly when
its value needs it: events do not say how an atom was written.

* `Node.plain` — a node with its atoms quoted so; the nodes that a builder makes are *plain*, which
  is `n.plain = n`.
* `Builder.build_eventsAll` — building the events of nodes gives the nodes, made plain.
* `Event.Replays` — an event list is the replay of nodes up to locations that the next location
  overtakes, as a filled-in template has them.
* `Builder.build_of_replays` — building does not see the difference.
* `Event.located` — events with the locations that count for them.
-/

namespace Node

/-- Where the last event of a node stands. A group ends at its closing bracket. -/
def stop : Node → Location
  | atom a => a.location
  | comment c => c.location
  | group _ _ _ s => s

/-! ### Plain nodes -/

mutual

/-- The node with each atom quoted exactly when its value needs it. -/
def plain : Node → Node
  | atom a => atom (Atom.plain a.value a.location)
  | comment c => comment c
  | group d cs l s => group d (plainAll cs) l s

/-- The nodes with each atom quoted exactly when its value needs it. -/
def plainAll : List Node → List Node
  | [] => []
  | n :: ns => plain n :: plainAll ns

end

theorem plainAll_eq_map (ns : List Node) : plainAll ns = ns.map plain := by
  induction ns with
  | nil => rfl
  | cons n ns ih => simp only [plainAll, List.map_cons, ih]

@[simp] theorem plainAll_append (ns ms : List Node) :
    plainAll (ns ++ ms) = plainAll ns ++ plainAll ms := by
  simp only [plainAll_eq_map, List.map_append]

/-- A list of nodes is plain when each of them is. -/
theorem plainAll_eq_self_iff {ns : List Node} : plainAll ns = ns ↔ ∀ n ∈ ns, n.plain = n := by
  induction ns with
  | nil => simp only [plainAll, List.not_mem_nil, false_implies, implies_true]
  | cons n ns ih => simp only [plainAll, List.cons.injEq, ih, List.forall_mem_cons]

/-- Making nodes plain twice is making them plain once. -/
@[simp] theorem plain_plain (n : Node) : n.plain.plain = n.plain := by
  induction n using induct with
  | atom a => rfl
  | comment c => rfl
  | group d cs l s ih =>
    simp only [plain, plainAll_eq_map, List.map_map, group.injEq, true_and, and_true]
    exact List.map_congr_left ih

@[simp] theorem plainAll_plainAll (ns : List Node) : plainAll (plainAll ns) = plainAll ns := by
  simp only [plainAll_eq_map, List.map_map, List.map_inj_left, Function.comp_apply, plain_plain,
    implies_true]

/-- Events do not tell how an atom was quoted. -/
@[simp] theorem events_plain (n : Node) : n.plain.events = n.events := by
  induction n using induct with
  | atom a => rfl
  | comment c => rfl
  | group d cs l s ih =>
    have h : eventsAll (plainAll cs) = eventsAll cs := by
      rw [eventsAll_eq_flatMap, eventsAll_eq_flatMap, plainAll_eq_map, List.flatMap_map]
      exact List.flatMap_congr ih
    simp only [plain, events, h]

@[simp] theorem eventsAll_plainAll (ns : List Node) : eventsAll (plainAll ns) = eventsAll ns := by
  rw [eventsAll_eq_flatMap, eventsAll_eq_flatMap, plainAll_eq_map, List.flatMap_map]
  exact List.flatMap_congr fun n _ => events_plain n

end Node

/-! ### Replaying into a builder -/

namespace Builder

/-- The group that closes is pushed into what is around it. -/
theorem close_of_groups {b : Builder} {g : OpenGroup} {gs : List OpenGroup}
    (h : b.groups = g :: gs) :
    b.close = ({ b with groups := gs } : Builder).push (g.close b.here) := by
  simp only [close, h]

/-- Adds a finished node as its events would. -/
def add (b : Builder) (n : Node) : Builder := { b.push n with here := n.stop }

/-- The location of the next event after nodes were added. -/
def hereAfter (here : Location) (ns : List Node) : Location := (ns.getLast?.map Node.stop).getD here

/-- Nodes added inside a group become its children. -/
theorem foldl_add_of_groups {b : Builder} {g : OpenGroup} {gs : List OpenGroup}
    (h : b.groups = g :: gs) (ns : List Node) :
    ns.foldl add b =
      { b with
        here := hereAfter b.here ns
        groups := { g with children := ns.reverse ++ g.children } :: gs } := by
  induction ns generalizing b g with
  | nil =>
    obtain ⟨here, top, groups⟩ := b
    subst h
    rfl
  | cons n ns ih =>
    rw [List.foldl_cons]
    have hn : (b.add n).groups = { g with children := n :: g.children } :: gs := by
      simp [add, push, h]
    rw [ih hn]
    -- where the last node is decides where the builder is
    cases ns <;> simp [hereAfter, add, push, h, List.getLast?_cons]

/-- Nodes added outside all groups go to the top. -/
theorem foldl_add_of_no_groups {b : Builder} (h : b.groups = []) (ns : List Node) :
    ns.foldl add b = { b with here := hereAfter b.here ns, top := ns.reverse ++ b.top } := by
  induction ns generalizing b with
  | nil => rfl
  | cons n ns ih =>
    rw [List.foldl_cons, ih (b := b.add n) (by simp [add, push, h])]
    cases ns <;> simp [hereAfter, add, push, h, List.getLast?_cons]

mutual

/-- The events of a node add the node. -/
theorem feed_events : ∀ (n : Node) (b : Builder), Sink.feed b n.events = b.add n.plain
  | .atom a, b => by
    cases hb : b.groups <;> simp [Node.events, Node.plain, Sink.receive, receive, add, push, hb,
      Node.stop, Atom.plain]
  | .comment c, b => by
    cases hb : b.groups <;> simp [Node.events, Node.plain, Sink.receive, receive, add, push, hb,
      Node.stop]
  | .group d cs l s, b => by
    -- the children land in the group that the bracket has opened
    rw [Node.events, Sink.feed_cons, Sink.feed_cons, Sink.feed_append, feed_eventsAll cs,
      foldl_add_of_groups rfl]
    cases hb : b.groups <;>
      simp [Sink.receive, receive, close, OpenGroup.close, add, push, hb, Node.plain, Node.stop]

/-- The events of nodes add the nodes. -/
theorem feed_eventsAll : ∀ (ns : List Node) (b : Builder),
    Sink.feed b (Node.eventsAll ns) = (Node.plainAll ns).foldl add b
  | [], _ => rfl
  | n :: ns, b => by
    rw [Node.eventsAll, Sink.feed_append, feed_events n, feed_eventsAll ns, Node.plainAll,
      List.foldl_cons]

end

/-- The builder that holds a single finished node and nothing else. -/
def holding (n : Node) : Builder := { here := n.stop, top := [n] }

/-- A builder that has received the events of one node holds this node. -/
theorem feed_empty_events (n : Node) : Sink.feed empty n.events = holding n.plain := by
  rw [feed_events]
  simp [add, push, empty, holding]

@[simp] theorem node?_holding (n : Node) : (holding n).node? = some n := rfl

/-- The nodes of a builder with no open groups are its top-level nodes, wherever it stands. -/
theorem nodes_of_no_groups {b : Builder} (h : b.groups = []) : b.nodes = b.top.reverse := by
  rw [nodes, closeAll, h, List.foldl_nil]

/-- **Building is inverse to replaying.** The events of nodes build these nodes, made plain. -/
theorem build_eventsAll (ns : List Node) : build (Node.eventsAll ns) = Node.plainAll ns := by
  rw [build, feed_eventsAll, foldl_add_of_no_groups rfl, nodes_of_no_groups rfl]
  simp [empty]

end Builder

/-! ### Locations that count -/

/-- An event that is no location goes on after the location that was held back, unless it is a
    comment that is taken out. -/
theorem filterCommentsFrom_cons {keep : Bool} {e : Event} (he : ∀ l, e ≠ .locate l)
    (hkept : keep = true ∨ ∀ t, e ≠ .comment t) (held : Option Location) (es : List Event) :
    filterCommentsFrom keep held (e :: es)
      = heldBack held ++ e :: filterCommentsFrom keep none es := by
  cases e with
  | locate l => exact absurd rfl (he l)
  | comment t =>
    obtain rfl | ht := hkept
    · rfl
    · exact absurd rfl (ht t)
  | _ => rfl

namespace Event

/-- Whether events start with a location, if there are any. -/
def Placed (es : List Event) : Prop := es = [] ∨ ∃ l rest, es = .locate l :: rest

theorem placed_locate (l : Location) (es : List Event) : Placed (.locate l :: es) :=
  .inr ⟨l, es, rfl⟩

/-- Nodes before placed events leave them placed. -/
theorem Placed.eventsAll_append {es : List Event} (h : Placed es) (ns : List Node) :
    Placed (Node.eventsAll ns ++ es) := by
  rcases ns with - | ⟨n, ns⟩
  · exact h
  · cases n <;> exact .inr ⟨_, _, rfl⟩

/-- The events of nodes are placed. -/
theorem placed_eventsAll (ns : List Node) : Placed (Node.eventsAll ns) := by
  rw [← List.append_nil (Node.eventsAll ns)]
  exact Placed.eventsAll_append (.inl rfl) ns

/-- A location that is held back is overtaken by placed events. -/
theorem Placed.filterCommentsFrom {keep : Bool} {es : List Event} (h : Placed es)
    (held : Option Location) :
    filterCommentsFrom keep held es = filterCommentsFrom keep none es := by
  obtain rfl | ⟨l, rest, rfl⟩ := h <;> rfl

/-- Whether events are the replay of nodes, up to locations that the next location overtakes. -/
def Replays (es : List Event) (ns : List Node) : Prop :=
  filterComments true es = Node.eventsAll ns

/-- The events of nodes replay the nodes. -/
theorem replays_eventsAll (ns : List Node) : Replays (Node.eventsAll ns) ns :=
  Node.filterComments_eventsAll true ns

/-- Events do not say how atoms were quoted. -/
theorem replays_plainAll (ns : List Node) : Replays (Node.eventsAll ns) (Node.plainAll ns) := by
  rw [Replays, Node.eventsAll_plainAll]
  exact replays_eventsAll ns

/-- The location of the event that comes after one. -/
def hereAfter (here : Location) : Event → Location
  | .locate l => l
  | _ => here

/-- The events that are no locations, each with the location that was set last. -/
def located (here : Location) : List Event → List (Location × Event)
  | [] => []
  | .locate l :: es => located l es
  | e :: es => (here, e) :: located here es

theorem located_cons (here : Location) (e : Event) (es : List Event) :
    located here (e :: es) = located here [e] ++ located (e.hereAfter here) es := by
  cases e <;> rfl

/-- Going along two streams is going along the one and then the other, from where it stops. -/
theorem located_append (here : Location) (es fs : List Event) :
    located here (es ++ fs) = located here es ++ located (es.foldl hereAfter here) fs := by
  induction es generalizing here with
  | nil => rfl
  | cons e es ih =>
    rw [List.cons_append, located_cons, ih, located_cons here e es, List.append_assoc,
      List.foldl_cons]

/-- Events with their locations before them. -/
def unlocated (received : List (Location × Event)) : List Event :=
  received.flatMap fun p => [.locate p.1, p.2]

theorem unlocated_append (xs ys : List (Location × Event)) :
    unlocated (xs ++ ys) = unlocated xs ++ unlocated ys :=
  List.flatMap_append

end Event

namespace Builder

/-- A location that is held back may as well be set at once. -/
private theorem feed_filterCommentsFrom (es : List Event) :
    ∀ (b : Builder) (held : Option Location), ∃ here,
      Sink.feed { b with here := held.getD b.here } es
        = { Sink.feed b (filterCommentsFrom true held es) with here } := by
  induction es with
  | nil => exact fun b held => ⟨_, rfl⟩
  | cons e es ih =>
    intro b held
    by_cases he : ∃ l, e = .locate l
    · -- a location overtakes the one that is held back
      obtain ⟨l, rfl⟩ := he
      exact ih b (some l)
    · rw [not_exists] at he
      rw [filterCommentsFrom_cons he (.inl rfl), Sink.feed_append, Sink.feed_cons, Sink.feed_cons]
      cases held <;> exact ih _ none

/-- A builder that has received events that replay nodes holds these nodes, made plain, and no group
    is open. -/
theorem feed_of_replays {es : List Event} {ns : List Node} (h : Event.Replays es ns) :
    ∃ here, Sink.feed empty es = { here, top := (Node.plainAll ns).reverse } := by
  obtain ⟨here, hf⟩ := feed_filterCommentsFrom es empty none
  rw [show filterCommentsFrom true none es = Node.eventsAll ns from h, feed_eventsAll,
    foldl_add_of_no_groups rfl] at hf
  refine ⟨here, ?_⟩
  rw [show empty = { empty with here := (none : Option Location).getD empty.here } from rfl, hf]
  simp [empty]

/-- **Building from a replay.** Events that replay nodes build these nodes, made plain. -/
theorem build_of_replays {es : List Event} {ns : List Node} (h : Event.Replays es ns) :
    build es = Node.plainAll ns := by
  obtain ⟨here, hf⟩ := feed_of_replays h
  rw [build, hf, nodes_of_no_groups rfl, List.reverse_reverse]

end Builder

end Formwork
