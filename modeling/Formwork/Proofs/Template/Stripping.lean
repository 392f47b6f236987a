import Formwork.Proofs.Pipeline.Stages

namespace Formwork

/-!
# Definitions and what is left without them

Collecting the template definitions of a document, said by recursion on its nodes. A definition is
handed over when it closes, so definitions inside it come before it and are no longer in it.

* `Node.definitionsAll`, `Node.strippedAll` — the definitions of nodes, in the order in which they
  are handed over, and what is left of the nodes.
* `stripTemplates_eq` — collecting hands over the one and leaves the other.
-/

/-! ### The recursion -/

namespace Node

/-- Whether the node is a template definition. -/
def isDefinition (n : Node) : Bool := n.headName? = some Template.keyword

mutual

/-- What is left of a node without the definitions in it: nothing, if it is one. -/
def stripped : Node → List Node
  | atom a => [atom a]
  | comment c => [comment c]
  | group d cs l s =>
    if (group d cs l s).isDefinition then [] else [group d (strippedAll cs) l s]

/-- What is left of nodes without the definitions among and in them. -/
def strippedAll : List Node → List Node
  | [] => []
  | n :: ns => stripped n ++ strippedAll ns

end

mutual

/-- The definitions in a node, each without those inside it. -/
def definitions : Node → List Node
  | atom _ => []
  | comment _ => []
  | group d cs l s =>
    definitionsAll cs ++
      if (group d cs l s).isDefinition then [group d (strippedAll cs) l s] else []

/-- The definitions among and in nodes, in the order in which they close. -/
def definitionsAll : List Node → List Node
  | [] => []
  | n :: ns => definitions n ++ definitionsAll ns

end

theorem definitionsAll_eq_flatMap (ns : List Node) :
    definitionsAll ns = ns.flatMap definitions := by
  induction ns with
  | nil => rfl
  | cons n ns ih => rw [definitionsAll, List.flatMap_cons, ih]

/-- Making a node plain makes its head plain, -/
theorem head?_plain (n : Node) : n.plain.head? = n.head?.map plain := by
  cases n with
  | atom => rfl
  | comment => rfl
  | group d cs l s =>
    have hcomment : (fun c : Node => !c.isComment) ∘ plain = fun c => !c.isComment := by
      funext c
      cases c <;> rfl
    simp only [head?, exprs, plain, children, plainAll_eq_map, List.filter_map, hcomment,
      List.head?_map]

/-- and does not change its name. -/
theorem headName?_plain (n : Node) : n.plain.headName? = n.headName? := by
  have hvalue : ∀ c : Node, c.plain.atom?.map Atom.value = c.atom?.map Atom.value := by
    intro c
    cases c <;> rfl
  rw [headName?, headName?, head?_plain, Option.bind_map]
  exact Option.bind_congr fun c _ => hvalue c

theorem isDefinition_plain (n : Node) : n.plain.isDefinition = n.isDefinition := by
  rw [isDefinition, isDefinition, headName?_plain]

/-- Nothing is left of a definition. -/
theorem stripped_of_isDefinition {n : Node} (h : n.isDefinition = true) : n.stripped = [] := by
  cases n with
  | atom => cases h
  | comment => cases h
  | group d cs l s => rw [stripped, if_pos h]

end Node

/-! ### Collecting -/

namespace Stripper

mutual

/-- Rewriting a node hands over its definitions. -/
theorem rewriteNode_eq (replay : List Node → Stripper → Option (Stripper × List Node)) :
    ∀ (n : Node) (s : Stripper),
      cutter.rewriteNode replay n s = some (n.definitions.foldl collect s, n.stripped)
  | .atom a, s => by rw [Cutter.rewriteNode_atom, Node.stripped, Node.definitions, List.foldl_nil]
  | .comment c, s => by rw [Cutter.rewriteNode, Node.stripped, Node.definitions, List.foldl_nil]
  | .group d cs l stop, s => by
    let g := Node.group d cs l stop
    have hask : cutter.ask s g.headName? = (s, g.isDefinition) := by
      show cutter.ask s g.headName? = (s, decide (g.headName? = some Template.keyword))
      cases g.headName? with
      | none => rfl
      | some head =>
        by_cases hhead : head = Template.keyword
        · subst hhead
          rfl
        · simp [Cutter.ask, cutter, hhead]
    have hchildren := rewriteAll_eq replay cs s
    rw [Cutter.rewriteNode, hask]
    show (cutter.rewriteAll replay cs s).bind _ = _
    rw [hchildren, Option.bind_some, Node.definitions, Node.stripped, List.foldl_append]
    by_cases hg : g.isDefinition = true
    · -- the rebuilt group is handed over, and nothing takes its place
      rw [if_pos hg, if_pos hg, if_pos hg, Cutter.replace_of_none (paste_holding _ _)]
      rfl
    · rw [if_neg hg, if_neg hg, if_neg hg, List.foldl_nil]

/-- Rewriting nodes hands over their definitions and leaves the rest. -/
theorem rewriteAll_eq (replay : List Node → Stripper → Option (Stripper × List Node)) :
    ∀ (ns : List Node) (s : Stripper),
      cutter.rewriteAll replay ns s
        = some ((Node.definitionsAll ns).foldl collect s, Node.strippedAll ns)
  | [], s => by
    rw [Cutter.rewriteAll, Node.definitionsAll, Node.strippedAll, List.foldl_nil]
  | n :: ns, s => by
    rw [Cutter.rewriteAll, rewriteNode_eq replay n, Option.bind_some, rewriteAll_eq replay ns,
      Option.map_some, Node.definitionsAll, Node.strippedAll, List.foldl_append]

end

end Stripper

/-- **Collecting templates** hands the definitions over and leaves the rest of the nodes. -/
theorem stripTemplates_eq (ns : List Node) :
    stripTemplates ns =
      let s := (Node.definitionsAll (Node.plainAll ns)).foldl Stripper.collect {}
      { templates := s.templates
        events := Node.eventsAll (Node.strippedAll (Node.plainAll ns))
        reports := s.reports } :=
  stripTemplates_of_rewrite (Stripper.rewriteAll_eq _ _ {})

end Formwork
