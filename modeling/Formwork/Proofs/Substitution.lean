import Formwork.Proofs.Replay
import Formwork.Substitution

namespace Formwork

/-!
# What a filled-in body replays

The events of a substitution are the replay of the filled-in nodes, up to the locations of the
placeholders: these are written before the events of the values, which bring locations of their own.
-/

/-- What is looked up is an entry of the list. -/
theorem mem_of_lookup {α : Type} {entries : List (String × α)} {key : String} {a : α}
    (h : entries.lookup key = some a) : (key, a) ∈ entries := by
  obtain ⟨before, after, rfl, -⟩ := List.lookup_eq_some_iff.mp h
  exact List.mem_append_right before List.mem_cons_self

namespace Substitution

variable (s : Substitution)

open Event (Placed)

variable {s} in
/-- An atom stands for what the name after its `@` is bound to. -/
theorem bound?_eq_some_iff {value : String} {ns : List Node} :
    s.bound? value = some ns ↔ ∃ name, value = "@" ++ name ∧ s.bindings.value? name = some ns := by
  simp only [show "@" = String.singleton '@' from rfl, Atom.eq_mark_append_iff]
  unfold bound?
  -- both sides take the mark off the front, the one by matching and the other by appending
  split
  case h_1 cs hcs =>
    rw [hcs]
    constructor
    · exact fun h => ⟨_, by rw [String.toList_ofList], h⟩
    · rintro ⟨name, hname, h⟩
      rwa [(List.cons.inj hname).2, String.ofList_toList]
  case h_2 hother =>
    constructor
    · intro h
      cases h
    · rintro ⟨name, hname, -⟩
      exact absurd hname (hother _)

variable {s} in
/-- What an atom stands for is bound to a name. -/
theorem mem_bindings_of_bound? {value : String} {ns : List Node} (h : s.bound? value = some ns) :
    ∃ b ∈ s.bindings, b.2 = ns := by
  obtain ⟨name, -, hbound⟩ := bound?_eq_some_iff.mp h
  exact ⟨_, mem_of_lookup hbound, rfl⟩

/-- The events that take the place of nodes are placed, if what follows them is. -/
theorem placed_replaceAll (ns : List Node) {es : List Event} (h : Placed es) :
    Placed ((Node.eventsAll ns).flatMap s.replace ++ es) := by
  rcases ns with - | ⟨n, ns⟩
  · exact h
  · cases n <;> exact .inr ⟨_, _, rfl⟩

mutual

/-- The events that take the place of a node of the body. -/
theorem filterCommentsFrom_replace : ∀ (n : Node) {es : List Event}, Placed es →
    filterCommentsFrom true none (n.events.flatMap s.replace ++ es)
      = Node.eventsAll (s.nodes n) ++ filterCommentsFrom true none es
  | .atom a, es, h => by
    cases hb : s.bound? a.value with
    | none =>
      simp [Node.events, replace, nodes, hb, filterCommentsFrom, heldBack, Node.eventsAll]
    | some ns =>
      simp only [Node.events, List.flatMap_cons, replace, hb, List.flatMap_nil, List.append_nil,
        List.cons_append, List.nil_append, filterCommentsFrom, nodes]
      -- a place held back is overtaken by that of the value, or by the next one if there is none
      rw [(h.eventsAll_append ns).filterCommentsFrom, Node.filterCommentsFrom_eventsAll,
        Node.withComments_true]
  | .comment c, es, _ => by
    simp [Node.events, replace, nodes, filterCommentsFrom, heldBack, Node.eventsAll]
  | .group d cs l stop, es, _ => by
    have hcs := filterCommentsFrom_replaceAll cs
      (Event.placed_locate (s.relocate stop) (.closing d :: es))
    simp [Node.events, replace, nodes, filterCommentsFrom, heldBack, Node.eventsAll, hcs]

/-- The events that take the place of nodes of the body. -/
theorem filterCommentsFrom_replaceAll : ∀ (ns : List Node) {es : List Event}, Placed es →
    filterCommentsFrom true none ((Node.eventsAll ns).flatMap s.replace ++ es)
      = Node.eventsAll (s.nodesAll ns) ++ filterCommentsFrom true none es
  | [], _, _ => rfl
  | n :: ns, es, h => by
    rw [Node.eventsAll, List.flatMap_append, List.append_assoc,
      filterCommentsFrom_replace n (placed_replaceAll s ns h), filterCommentsFrom_replaceAll ns h,
      nodesAll, Node.eventsAll_append, List.append_assoc]

end

/-- **Filling in events is filling in nodes.** The events of a substitution replay the nodes of the
    body with their placeholders filled in. -/
theorem replays_events : Event.Replays s.events (s.nodesAll s.body) := by
  have h := filterCommentsFrom_replaceAll s s.body (.inl rfl)
  rwa [List.append_nil, filterCommentsFrom, List.append_nil] at h

end Substitution

end Formwork
