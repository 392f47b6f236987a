import Formwork.Proofs.Cutout.Calls
import Formwork.Proofs.Cutout.Moments
import Formwork.Proofs.Template.Binding

namespace Formwork

/-!
# Filling in a body on the way

The body of a template is filled in event by event while it goes through, and no list of nodes is
made of it. What takes the events in can tell no difference: a builder ends up with the body filled
in node by node, and a cutout does what it does with the replay of these nodes.

* `Substitution.plainAll_nodesAll` — filling plain nodes with plain values gives plain nodes.
* `Cutter.run_eq_of_replays` — of two event lists that replay the same nodes a cutout makes the same.
* `Substitution.streams` — filling in events, filling in nodes and replaying agree.
-/

/-! ### Plain nodes -/

namespace Substitution

variable {s : Substitution}

/-- Whether all nodes of a substitution are plain: those of the body and those of the values. -/
structure Plain (s : Substitution) : Prop where
  body : Node.plainAll s.body = s.body
  values : ∀ b ∈ s.bindings, Node.plainAll b.2 = b.2

mutual

/-- A plain node of the body is filled in with plain nodes. -/
theorem plainAll_nodes (hvalues : ∀ b ∈ s.bindings, Node.plainAll b.2 = b.2) :
    ∀ n : Node, n.plain = n → Node.plainAll (s.nodes n) = s.nodes n
  | .atom a, hn => by
    rw [nodes]
    split
    case h_1 ns hns =>
      obtain ⟨b, hb, rfl⟩ := mem_bindings_of_bound? hns
      exact hvalues b hb
    case h_2 =>
      have ha : Atom.plain a.value a.location = a := Node.atom.inj hn
      have hquoted : needsQuotes a.value.toList = a.quoted := congrArg Atom.quoted ha
      rw [Node.plainAll, Node.plain, Node.plainAll, Atom.plain, hquoted]
  | .comment c, _ => rfl
  | .group d cs l stop, hn => by
    have hcs : Node.plainAll cs = cs := by simpa [Node.plain] using hn
    rw [nodes, Node.plainAll, Node.plain, plainAll_nodesAll hvalues cs hcs, Node.plainAll]

/-- Plain nodes of the body are filled in with plain nodes. -/
theorem plainAll_nodesAll (hvalues : ∀ b ∈ s.bindings, Node.plainAll b.2 = b.2) :
    ∀ ns : List Node, Node.plainAll ns = ns → Node.plainAll (s.nodesAll ns) = s.nodesAll ns
  | [], _ => rfl
  | n :: ns, hns => by
    rw [Node.plainAll, List.cons.injEq] at hns
    rw [nodesAll, Node.plainAll_append, plainAll_nodes hvalues n hns.1,
      plainAll_nodesAll hvalues ns hns.2]

end

/-- The events of a plain substitution build its nodes. -/
theorem Plain.build_events (h : s.Plain) : Builder.build s.events = s.nodesAll s.body := by
  rw [Builder.build_of_replays s.replays_events, plainAll_nodesAll h.values s.body h.body]

end Substitution

/-! ### Replays that go through a cutout -/

namespace Cutout

variable {σ β : Type} [Sink β] {cutter : Cutter σ β}

/-- Events that replay nodes go through as the events of the nodes do, whatever has gone through
    before them. -/
theorem feed_of_replays {es : List Event} {ns : List Node} (h : Event.Replays es ns) (levels : Nat)
    (c : Cutout σ β) :
    (feed cutter levels c es).map unplaced
      = (feed cutter levels c (Node.eventsAll ns)).map unplaced := by
  rw [feed_eq_foldlM, feed_eq_foldlM]
  exact feedWith_of_replays h c

/-- Where a cutout stands does not matter when it releases a bracket. -/
theorem release_unplaced (c : Cutout σ β) : c.unplaced.release = c.release.unplaced := by
  have hpass : ∀ (c : Cutout σ β) (es : List Event),
      c.unplaced.pass es = (c.pass es).unplaced := by
    intro c es
    cases h : c.frames <;> simp [pass, unplaced, h]
  have hdeepen : ∀ c : Cutout σ β, c.unplaced.deepen = c.deepen.unplaced := by
    intro c
    cases h : c.frames <;> simp [deepen, unplaced, h]
  cases hp : c.pending with
  | none => rw [release_of_none hp, release_of_none (show c.unplaced.pending = none from hp)]
  | some p =>
    rw [release_of_some hp, release_of_some (show c.unplaced.pending = some p from hp), ← hpass,
      ← hdeepen]
    rfl

end Cutout

/-- A run on events that replay nodes is the run on the events of the nodes: it ends within as many
    levels, in the same state and with the same events passed on. -/
theorem Cutter.run_eq_of_replays {σ β : Type} [Sink β] (cutter : Cutter σ β) (levels : Nat)
    (state : σ) {es : List Event} {ns : List Node} (h : Event.Replays es ns) :
    cutter.run levels state es = cutter.run levels state (Node.eventsAll ns) := by
  -- what a run gives can be read off a cutout without its place
  let result : Cutout σ β → σ × List Event := fun c => (c.state, c.release.sent.reverse)
  have hresult : ∀ x : Option (Cutout σ β), x.map result = (x.map Cutout.unplaced).map result := by
    intro x
    cases x with
    | none => rfl
    | some c =>
      show some (result c) = some (c.state, c.unplaced.release.sent.reverse)
      rw [Cutout.release_unplaced]
      rfl
  show (Cutout.feed cutter levels { state } es).map result
    = (Cutout.feed cutter levels { state } (Node.eventsAll ns)).map result
  rw [hresult, Cutout.feed_of_replays h, ← hresult]

/-! ### Filling in on the way -/

namespace Substitution

/-- What it means that nothing that takes in the events of a substitution can tell them from the
    replay of the body filled in node by node. -/
structure StreamsAlike (s : Substitution) : Prop where
  /-- The atoms that are replaced are those of an `@` and a name that is bound. -/
  placeholders : ∀ value ns, s.bound? value = some ns ↔
    ∃ name, value = "@" ++ name ∧ s.bindings.value? name = some ns
  /-- A builder ends up with the body filled in node by node, and with no group open. -/
  builder : ∃ here, Sink.feed Builder.empty s.events = { here, top := (s.nodesAll s.body).reverse }
  built : Builder.build s.events = s.nodesAll s.body
  /-- A cutout that starts with the events passes on what it passes on of the built nodes, -/
  run : ∀ (σ β : Type) [Sink β] (cutter : Cutter σ β) (levels : Nat) (state : σ),
    cutter.run levels state s.events
      = cutter.run levels state (Node.eventsAll (Builder.build s.events))
  /-- with the same calls of the cutter, in the same order. -/
  calls : ∀ (σ β : Type) [Sink β] (cutter : Cutter σ β) (levels : Nat) (state : σ),
    cutter.logged.run levels (state, []) s.events
      = cutter.logged.run levels (state, []) (Node.eventsAll (Builder.build s.events))
  /-- This holds in the middle of a run too: whatever has gone through a cutout before, it is in the
      same state afterwards but for its place, which the next event sets anew. -/
  between : ∀ (σ β : Type) [Sink β] (cutter : Cutter σ β) (levels : Nat)
    (c : Cutout (σ × List (Call β)) β),
    (Cutout.feed cutter.logged levels c s.events).map Cutout.unplaced
      = (Cutout.feed cutter.logged levels c (Node.eventsAll (Builder.build s.events))).map
          Cutout.unplaced

/-- **Filling in a body on the way.** For every call, body and values, a builder makes of the events
    of a substitution the body with each placeholder replaced by its value, at once and once; and a
    cutout does with these events, call by call, what it does with the replay of the result. -/
theorem streams {s : Substitution} (h : s.Plain) : s.StreamsAlike := by
  -- the events differ from those of the built nodes in places alone, which no cutout tells apart
  have hreplays := s.replays_events
  have hplain : Node.plainAll (s.nodesAll s.body) = s.nodesAll s.body :=
    plainAll_nodesAll h.values s.body h.body
  have hbuilt := h.build_events
  obtain ⟨here, hhere⟩ := Builder.feed_of_replays hreplays
  rw [hplain] at hhere
  refine
    { placeholders := fun _ _ => bound?_eq_some_iff
      builder := ⟨here, hhere⟩
      built := hbuilt
      run := ?_
      calls := ?_
      between := ?_ }
  · intro σ β _ cutter levels state
    rw [hbuilt]
    exact cutter.run_eq_of_replays levels state hreplays
  · intro σ β _ cutter levels state
    rw [hbuilt]
    exact cutter.logged.run_eq_of_replays levels (state, []) hreplays
  · intro σ β _ cutter levels c
    rw [hbuilt]
    exact Cutout.feed_of_replays hreplays levels c

/-- A body whose head is a placeholder, with a value that is a placeholder itself, one of two nodes
    and one of none. -/
def joining : Substitution where
  callSite := .nowhere
  body := [Template.words [Template.word "@f", Template.word "@x", Template.word "@y",
    Template.word "@z"]]
  bindings :=
    [("f", [Template.word "concat"]), ("x", [Template.word "@y"]),
      ("y", [Template.word "p", Template.word "q"]), ("z", [])]

/-- The head that a placeholder brings is cut on, and a value is not filled in again. -/
theorem streams_joining :
    joining.Plain ∧ joining.StreamsAlike ∧
      Node.textAll (Builder.build joining.events) = "(concat @y p q)" ∧
      (Expander.cutter.logged.run 1 (({} : Expander).registerAll Rule.builtins, [])
          joining.events).map
          (fun r => (Call.heads r.1.2, Node.textAll (Builder.build r.2)))
        = some (["concat"], "@ypq") := by
  have hplain : joining.Plain := by
    refine { body := rfl, values := ?_ }
    simp only [joining, List.forall_mem_cons]
    exact ⟨rfl, rfl, rfl, rfl, List.forall_mem_nil _⟩
  exact ⟨hplain, streams hplain, by decide +kernel, by decide +kernel⟩

end Substitution

end Formwork
