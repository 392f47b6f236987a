import Formwork.Proofs.Replay
import Formwork.Proofs.Scan.Streams

namespace Formwork

/-!
# Building from any events

A builder tells what it has received: its finished nodes tell what they consist of, and an open
group tells that it was opened, before its children. So what each event adds to a builder can be
read off the nodes in the end, whether or not the brackets match.

* `Builder.told` — what a builder tells, given what nodes and opening brackets tell.
* `Builder.received_feed` — of a well-nested stream it tells the whole stream.
* `Builder.started_feed` — of any events it tells all but the closing brackets.
* `Builder.build_replay` — building and replaying are inverse, and building loses nothing.
-/

/-! ### What a builder tells -/

namespace Builder

section

variable {α : Type} {node : Node → List α} {opened : Delim → Location → List α}

/-- What the finished nodes and the open groups of a builder tell, in the order in which they
    came. -/
def told (node : Node → List α) (opened : Delim → Location → List α) (b : Builder) : List α :=
  b.top.reverse.flatMap node ++
    b.groups.reverse.flatMap fun g => opened g.delim g.location ++ g.children.reverse.flatMap node

/-- A node that is added is told last. -/
theorem told_push (b : Builder) (n : Node) :
    (b.push n).told node opened = b.told node opened ++ node n := by
  cases hgroups : b.groups <;> simp [told, push, hgroups]

/-- So is the start of a group. -/
theorem told_opening (b : Builder) (d : Delim) :
    (b.receive (.opening d)).told node opened = b.told node opened ++ opened d b.here := by
  simp [told, receive]

/-- The children of a group have been told when its closing bracket comes, which adds what it tells
    itself. -/
theorem told_close {closed : Delim → Location → List α}
    (hnode : ∀ d cs l stop,
      node (.group d cs l stop) = opened d l ++ cs.flatMap node ++ closed d stop)
    {b : Builder} {g : OpenGroup} {gs : List OpenGroup} (hgroups : b.groups = g :: gs) :
    b.close.told node opened = b.told node opened ++ closed g.delim b.here := by
  rw [close_of_groups hgroups, told_push, OpenGroup.close, hnode]
  simp [told, hgroups]

/-- With no group open, the top-level nodes tell everything. -/
theorem told_of_no_groups {b : Builder} (h : b.groups = []) :
    b.told node opened = b.nodes.flatMap node := by
  simp [told, h, nodes_of_no_groups h]

end

/-! ### The brackets that are open -/

/-- The kinds of the open groups, innermost first. -/
def delims (b : Builder) : List Delim := b.groups.map OpenGroup.delim

theorem delims_push (b : Builder) (n : Node) : (b.push n).delims = b.delims := by
  cases hgroups : b.groups <;> simp [delims, push, hgroups]

theorem delims_close (b : Builder) : b.close.delims = b.delims.tail := by
  cases hgroups : b.groups with
  | nil => simp [delims, close, hgroups]
  | cons g gs =>
    rw [close_of_groups hgroups, delims_push]
    simp [delims, hgroups]

/-- No group is open exactly when no bracket is. -/
theorem groups_eq_nil_iff (b : Builder) : b.groups = [] ↔ b.delims = [] := by
  simp [delims]

/-- Closing every open group leaves none open. -/
theorem groups_closeAll (b : Builder) : b.closeAll.groups = [] := by
  -- generalised over the builder, as every round closes one of the open groups
  have hclose : ∀ (gs : List OpenGroup) (b : Builder), b.delims.length ≤ gs.length →
      (gs.foldl (fun b _ => b.close) b).delims = [] := by
    intro gs
    induction gs with
    | nil => exact fun b hb => List.length_eq_zero_iff.mp (Nat.le_zero.mp hb)
    | cons g gs ih =>
      intro b hb
      refine ih b.close ?_
      rw [delims_close, List.length_tail]
      rw [List.length_cons] at hb
      omega
  rw [groups_eq_nil_iff]
  exact hclose b.groups b (by simp [delims])

/-! ### Well-nested streams -/

/-- What a builder has received of the events of its nodes. -/
def received (b : Builder) : List Event := b.told Node.events fun d l => [.locate l, .opening d]

/-- A group that closes adds its closing bracket. -/
theorem received_close {b : Builder} {g : OpenGroup} {gs : List OpenGroup}
    (hgroups : b.groups = g :: gs) :
    b.close.received = b.received ++ [.locate b.here, .closing g.delim] := by
  have hnode : ∀ d cs l stop, (Node.group d cs l stop).events
      = [.locate l, .opening d] ++ cs.flatMap Node.events ++ [.locate stop, .closing d] := by
    intro d cs l stop
    rw [Node.events, Node.eventsAll_eq_flatMap]
    simp
  have hclosed := told_close hnode hgroups
  exact hclosed

/-- **A builder tells the stream** that it has received, and has open what the stream leaves open,
    if each closing bracket closes the innermost group. -/
theorem received_feed {limit : Nat} {groups left : List Delim} {es : List Event}
    (h : Event.WellNested limit groups es left) {b : Builder} (hb : b.delims = groups) :
    (Sink.feed b es).received = b.received ++ es ∧ (Sink.feed b es).delims = left := by
  -- every event adds to what was received, and brackets open and close the groups they say
  induction h generalizing b with
  | nil => exact ⟨by simp, hb⟩
  | @atom groups left es l value _ ih =>
    obtain ⟨hreceived, hleft⟩ :=
      ih (b := ({ b with here := l } : Builder).push (.atom (Atom.plain value l)))
        ((delims_push _ _).trans hb)
    refine ⟨hreceived.trans ?_, hleft⟩
    rw [received, told_push, List.append_assoc]
    rfl
  | @comment groups left es l text _ ih =>
    obtain ⟨hreceived, hleft⟩ :=
      ih (b := ({ b with here := l } : Builder).push (.comment { text, location := l }))
        ((delims_push _ _).trans hb)
    refine ⟨hreceived.trans ?_, hleft⟩
    rw [received, told_push, List.append_assoc]
    rfl
  | @opening groups left es l d _ _ ih =>
    obtain ⟨hreceived, hleft⟩ :=
      ih (b := ({ b with here := l } : Builder).receive (.opening d)) (congrArg (d :: ·) hb)
    refine ⟨hreceived.trans ?_, hleft⟩
    rw [received, told_opening, List.append_assoc]
    rfl
  | @closing groups left es l d _ ih =>
    obtain ⟨g, gs, hgroups, rfl, -⟩ := List.map_eq_cons_iff.mp hb
    obtain ⟨hreceived, hleft⟩ := ih (b := ({ b with here := l } : Builder).close)
      ((delims_close _).trans (congrArg List.tail hb))
    refine ⟨hreceived.trans ?_, hleft⟩
    rw [received_close (b := { b with here := l }) hgroups, List.append_assoc]
    rfl

end Builder

mutual

/-- The events of a node are well nested. -/
theorem Event.wellNested_events (limit : Nat) : ∀ (n : Node) (groups : List Delim),
    groups.length + n.events.length ≤ limit → WellNested limit groups n.events groups
  | .atom a, _, _ => .atom a.location a.value .nil
  | .comment c, _, _ => .comment c.location c.text .nil
  | .group d cs l stop, groups, h => by
    simp only [Node.events, List.length_cons, List.length_append] at h
    refine .opening l d (by omega) ?_
    have hcs := wellNested_eventsAll limit cs (d :: groups) (by simp only [List.length_cons]; omega)
    exact hcs.append (.closing stop d .nil)

/-- The events of nodes are well nested, if as many groups may be open as there are events. -/
theorem Event.wellNested_eventsAll (limit : Nat) : ∀ (ns : List Node) (groups : List Delim),
    groups.length + (Node.eventsAll ns).length ≤ limit →
      WellNested limit groups (Node.eventsAll ns) groups
  | [], _, _ => .nil
  | n :: ns, groups, h => by
    rw [Node.eventsAll, List.length_append] at h
    exact (wellNested_events limit n groups (by omega)).append
      (wellNested_eventsAll limit ns groups (by omega))

end

/-- Whether events come with their locations before them, and each closing bracket closes the
    innermost group, until no group is open. -/
def Event.Balanced (es : List Event) : Prop := ∃ limit, WellNested limit [] es []

/-! ### Any events -/

/-- Whether an event is a closing bracket. -/
def Event.isClosing : Event → Bool
  | closing _ => true
  | _ => false

/-- The event that a node starts with, and where. -/
def Node.start : Node → Location × Event
  | atom a => (a.location, .atom a.value)
  | comment c => (c.location, .comment c.text)
  | group d _ l _ => (l, .opening d)

/-- Everything that starts among and inside nodes, outermost and leftmost first. -/
def Node.starts (n : Node) : List (Location × Event) := n.preorder.map start

namespace Builder

/-- What has started in a builder. -/
def started (b : Builder) : List (Location × Event) :=
  b.told Node.starts fun d l => [(l, .opening d)]

/-- A closing bracket starts nothing, whether or not a group is open. -/
theorem started_close (b : Builder) : b.close.started = b.started := by
  cases hgroups : b.groups with
  | nil => simp only [close, hgroups]
  | cons g gs =>
    -- a group starts before its contents and adds nothing at its end
    have hnode : ∀ d cs l stop, (Node.group d cs l stop).starts
        = [(l, .opening d)] ++ cs.flatMap Node.starts ++ [] := by
      intro d cs l stop
      rw [Node.starts, Node.preorder_group, List.map_cons, List.map_flatMap, List.append_nil]
      rfl
    have hclosed := told_close hnode hgroups
    rw [List.append_nil] at hclosed
    exact hclosed

/-- Closing what is left open starts nothing. -/
theorem started_closeAll (b : Builder) : b.closeAll.started = b.started := by
  have hclose : ∀ (gs : List OpenGroup) (b : Builder),
      (gs.foldl (fun b _ => b.close) b).started = b.started := by
    intro gs
    induction gs with
    | nil => exact fun b => rfl
    | cons g gs ih => exact fun b => (ih b.close).trans (started_close b)
  exact hclose b.groups b

/-- An event starts what it stands for, unless it is a location or a closing bracket. -/
theorem started_receive (b : Builder) (e : Event) :
    (b.receive e).started
      = b.started ++ (Event.located b.here [e]).filter fun p => !p.2.isClosing := by
  cases e with
  | locate l => exact (List.append_nil _).symm
  | opening d => exact told_opening b d
  | atom value => exact told_push b _
  | comment text => exact told_push b _
  | closing d => exact (started_close b).trans (List.append_nil _).symm

theorem here_push (b : Builder) (n : Node) : (b.push n).here = b.here := by
  cases hgroups : b.groups <;> simp only [push, hgroups]

/-- An event moves the builder as it moves along a stream. -/
theorem here_receive (b : Builder) (e : Event) : (b.receive e).here = e.hereAfter b.here := by
  cases e with
  | locate l => rfl
  | opening d => rfl
  | atom value => exact here_push b _
  | comment text => exact here_push b _
  | closing d =>
    show b.close.here = b.here
    cases hgroups : b.groups with
    | nil => simp only [close, hgroups]
    | cons g gs => rw [close_of_groups hgroups, here_push]

/-- **Nothing is lost and nothing comes twice.** Whatever events a builder receives, all of them but
    the closing brackets start something in it, in their order and where they stand. -/
theorem started_feed (es : List Event) (b : Builder) :
    (Sink.feed b es).started
      = b.started ++ (Event.located b.here es).filter fun p => !p.2.isClosing := by
  induction es generalizing b with
  | nil => exact (List.append_nil _).symm
  | cons e es ih =>
    rw [Sink.feed_cons, ih, Event.located_cons, List.filter_append, ← List.append_assoc]
    exact congr (congrArg _ (started_receive b e)) (by rw [← here_receive]; rfl)

/-- The nodes of a builder, with every open group closed, start what has started in it. -/
theorem flatMap_starts_nodes (b : Builder) : b.nodes.flatMap Node.starts = b.started := by
  have hall := started_closeAll b
  have hgroups := groups_closeAll b
  rw [started, told_of_no_groups hgroups, nodes_of_no_groups hgroups] at hall
  exact hall

/-- **Building and replaying are inverse.** The events of nodes leave no group open and build these
    nodes, exactly if each atom is quoted as its value needs it. The nodes that events build replay
    the same events, exactly if these are balanced. And whatever the events are, each atom and each
    comment is once among the nodes that they build, and each opening bracket starts one group, in
    the order of the events and with their locations; nothing else is there. -/
theorem build_replay :
    (∀ ns : List Node, (Sink.feed empty (Node.eventsAll ns)).unclosed? = none ∧
      (build (Node.eventsAll ns) = ns ↔ Node.plainAll ns = ns)) ∧
    (∀ es : List Event, Node.eventsAll (build es) = es ↔ Event.Balanced es) ∧
    ∀ es : List Event, (build es).flatMap Node.starts
      = (Event.located Location.nowhere es).filter fun p => !p.2.isClosing := by
  refine ⟨fun ns => ⟨?_, ?_⟩, fun es => ⟨fun h => ?_, fun ⟨limit, h⟩ => ?_⟩, fun es => ?_⟩
  · rw [feed_eventsAll, foldl_add_of_no_groups rfl]
    rfl
  · rw [build_eventsAll]
  · rw [← h]
    exact ⟨_, Event.wellNested_eventsAll _ _ [] (Nat.le_of_eq (Nat.zero_add _))⟩
  · obtain ⟨hreceived, hleft⟩ := received_feed h (b := empty) rfl
    rw [received, told_of_no_groups ((groups_eq_nil_iff _).mpr hleft)] at hreceived
    rw [Node.eventsAll_eq_flatMap]
    exact hreceived
  · rw [build, flatMap_starts_nodes, started_feed]
    rfl

end Builder

end Formwork
