import Formwork.Pipeline
import Formwork.Proofs.Cutout.Leftovers
import Formwork.Proofs.Substitution

namespace Formwork

/-!
# Where the nodes of an expansion stand

An expansion of a template has three kinds of nodes. Those that the caller has supplied stand where
the caller wrote them. Those of the body stand at the call first of all, and behind it where they
were written in the definition. And those of a default that a parameter falls back on stand where
the default was written: they are values, as what the caller supplies, so they are not seen from
the call.

* `Template.FallsBackOn` — the defaults that count in an invocation.
* `Template.bind_sources` — what the parameters stand for was supplied, or is such a default.
* `Template.transform_attributed` — every node of an expansion is of one of the three kinds.
* `Template.expandSource_default` — the place of a default does not mention the call.
-/

/-! ### Supplied values and defaults -/

/-- The nodes that the caller supplies. -/
def Invocation.supplied (inv : Invocation) : List Node :=
  inv.arguments.map Prod.snd ++ inv.remainder

namespace Template

/-- A node that a parameter falls back on, as the caller leaves the parameter out. -/
inductive FallsBackOn (t : Template) (inv : Invocation) : Node → Prop where
  | named {name : String} {n : Node} (declared : (name, .value n) ∈ t.named)
      (left : inv.arguments.lookup name = none) : FallsBackOn t inv n
  | positional {i : Nat} {n : Node} (declared : t.positional[i]? = some (.value n))
      (left : inv.remainder[i]? = none) : FallsBackOn t inv n
  | rest {defaults : List Node} {n : Node} (declared : t.rest = some defaults)
      (mem : n ∈ defaults) (left : inv.remainder[t.positional.length]? = none) :
      FallsBackOn t inv n

/-- What a parameter stands for is what is given for it, or else its default. -/
private theorem of_mem_given {given : Option Node} {f : Fallback} {ns : List Node} {n : Node}
    (hns : (given.map fun n => [n]).or f.bound? = some ns) (hn : n ∈ ns) :
    given = some n ∨ given = none ∧ f = Fallback.value n := by
  cases given with
  | some m =>
    cases hns
    exact .inl (congrArg some (List.mem_singleton.mp hn).symm)
  | none =>
    refine .inr ⟨rfl, ?_⟩
    cases f with
    | required => cases hns
    | nothing =>
      cases hns
      cases hn
    | value d =>
      cases hns
      exact congrArg Fallback.value (List.mem_singleton.mp hn).symm

theorem bindNamed_sources {t : Template} {inv : Invocation} :
    ∀ b ∈ t.bindNamed inv.arguments, ∀ n ∈ b.2, n ∈ inv.supplied ∨ t.FallsBackOn inv n := by
  intro b hb n hn
  obtain ⟨⟨name, f⟩, hdeclared, hb⟩ := List.mem_filterMap.mp hb
  obtain ⟨ns, hns, rfl⟩ := Option.map_eq_some_iff.mp hb
  obtain hgiven | ⟨hleft, rfl⟩ := of_mem_given hns hn
  · left
    have hmem : (name, n) ∈ inv.arguments := mem_of_lookup hgiven
    exact List.mem_append_left _ (List.mem_map_of_mem hmem)
  · right
    exact .named hdeclared hleft

/-- The positional parameters, from the one with the given number on. -/
theorem bindPositional_sources (number : Nat) (fs : List Fallback) (ns : List Node) :
    ∀ b ∈ bindPositional number fs ns, ∀ n ∈ b.2,
      n ∈ ns ∨ ∃ i : Nat, fs[i]? = some (Fallback.value n) ∧ ns[i]? = none := by
  intro b hb n hn
  induction fs generalizing number ns with
  | nil => cases hb
  | cons f fs ih =>
    obtain hb | hb := List.mem_append.mp hb
    · -- the first parameter takes the first node, or falls back
      obtain ⟨ms, hms, rfl⟩ := List.mem_map.mp hb
      obtain hgiven | ⟨hleft, rfl⟩ := of_mem_given (Option.mem_toList.mp hms) hn
      · exact .inl (List.mem_of_head? hgiven)
      · refine .inr ⟨0, rfl, ?_⟩
        rwa [← List.head?_eq_getElem?]
    · obtain hgiven | ⟨i, hdeclared, hleft⟩ := ih (number + 1) ns.tail hb
      · exact .inl (List.mem_of_mem_tail hgiven)
      · refine .inr ⟨i + 1, hdeclared, ?_⟩
        rwa [List.getElem?_tail] at hleft

theorem bindRest_sources {t : Template} {inv : Invocation} :
    ∀ b ∈ t.bindRest inv.remainder, ∀ n ∈ b.2, n ∈ inv.supplied ∨ t.FallsBackOn inv n := by
  intro b hb n hn
  unfold bindRest at hb
  split at hb
  · cases hb
  · next defaults hdeclared =>
    obtain rfl := List.mem_singleton.mp hb
    -- the defaults count only if no argument is left over for the parameter
    by_cases hleft : (inv.remainder.drop t.positional.length).isEmpty = true
    · rw [if_pos hleft] at hn
      right
      refine .rest hdeclared hn ?_
      rw [List.isEmpty_iff, List.drop_eq_nil_iff] at hleft
      exact List.getElem?_eq_none hleft
    · rw [if_neg hleft] at hn
      left
      exact List.mem_append_right _ (List.mem_of_mem_drop hn)

/-- **What the parameters stand for** was supplied by the caller, or is a default that counts. -/
theorem bind_sources (t : Template) (inv : Invocation) :
    ∀ b ∈ t.bind inv, ∀ n ∈ b.2, n ∈ inv.supplied ∨ t.FallsBackOn inv n := by
  intro b hb n hn
  unfold bind at hb
  -- keyword parameters, then positional ones, then the rest
  rcases List.mem_append.mp hb with hb | hb
  · rcases List.mem_append.mp hb with hb | hb
    · exact bindNamed_sources b hb n hn
    · obtain hgiven | ⟨i, hdeclared, hleft⟩ := bindPositional_sources 1 _ _ b hb n hn
      · exact .inl (List.mem_append_right _ hgiven)
      · exact .inr (.positional hdeclared hleft)
  · exact bindRest_sources b hb n hn

end Template

/-! ### The body -/

namespace Substitution

/-- What becomes of a node of the body that is no bound placeholder: its children are filled in, and
    it is seen from the call. -/
inductive Moves (s : Substitution) : Node → Node → Prop where
  | atom {a : Atom} (free : s.bound? a.value = none) :
      Moves s (.atom a) (.atom { a with location := s.relocate a.location })
  | comment (c : Comment) :
      Moves s (.comment c) (.comment { c with location := s.relocate c.location })
  | group (d : Delim) (cs : List Node) (l stop : Location) :
      Moves s (.group d cs l stop)
        (.group d (s.nodesAll cs) (s.relocate l) (s.relocate stop))

variable {s : Substitution}

/-- A node that is moved stands at the call, and behind it where it stood. -/
theorem Moves.location {k m : Node} (h : s.Moves k m) :
    m.location = s.callSite.via .template k.location := by
  cases h <;> rfl

/-- So does the end of a group. -/
theorem Moves.stop {k m : Node} (h : s.Moves k m) :
    m.stop = s.callSite.via .template k.stop := by
  cases h <;> rfl

mutual

/-- A node of the body, filled in. -/
theorem nodes_sources : ∀ (k m : Node), m ∈ (s.nodes k).flatMap Node.preorder →
    (∃ b ∈ s.bindings, m ∈ b.2.flatMap Node.preorder) ∨ ∃ k' ∈ k.preorder, s.Moves k' m
  | .atom a, m, hm => by
    cases hb : s.bound? a.value with
    | some ns =>
      obtain ⟨b, hmem, rfl⟩ := mem_bindings_of_bound? hb
      left
      refine ⟨b, hmem, ?_⟩
      simpa only [nodes, hb] using hm
    | none =>
      right
      refine ⟨.atom a, List.mem_singleton_self _, ?_⟩
      simp only [nodes, hb] at hm
      obtain rfl := List.mem_singleton.mp hm
      exact .atom hb
  | .comment c, m, hm => by
    right
    refine ⟨.comment c, List.mem_singleton_self _, ?_⟩
    obtain rfl := List.mem_singleton.mp hm
    exact .comment c
  | .group d cs l stop, m, hm => by
    rw [nodes, List.flatMap_singleton, Node.preorder_group] at hm
    rcases List.mem_cons.mp hm with rfl | hm
    · -- the group itself is moved
      exact .inr ⟨_, by rw [Node.preorder_group]; exact List.mem_cons_self, .group d cs l stop⟩
    · rcases nodesAll_sources cs m hm with hvalue | ⟨k', hk', hmoves⟩
      · exact .inl hvalue
      · refine .inr ⟨k', ?_, hmoves⟩
        rw [Node.preorder_group]
        exact List.mem_cons_of_mem _ hk'

/-- Nodes of the body, filled in: each node is a part of a value, or a node of the body that is
    moved. -/
theorem nodesAll_sources : ∀ (ks : List Node) (m : Node),
    m ∈ (s.nodesAll ks).flatMap Node.preorder →
      (∃ b ∈ s.bindings, m ∈ b.2.flatMap Node.preorder) ∨
        ∃ k' ∈ ks.flatMap Node.preorder, s.Moves k' m
  | [], m, hm => by cases hm
  | k :: ks, m, hm => by
    rw [nodesAll, List.flatMap_append] at hm
    rw [List.flatMap_cons]
    rcases List.mem_append.mp hm with hm | hm
    · rcases nodes_sources k m hm with hvalue | ⟨k', hk', hmoves⟩
      · exact .inl hvalue
      · exact .inr ⟨k', List.mem_append_left _ hk', hmoves⟩
    · rcases nodesAll_sources ks m hm with hvalue | ⟨k', hk', hmoves⟩
      · exact .inl hvalue
      · exact .inr ⟨k', List.mem_append_right _ hk', hmoves⟩

end

end Substitution

/-! ### The expansion -/

namespace Location

/-- The text and the mark that a location is attributed to first. -/
def attributed? (l : Location) : Option (String × Mark) :=
  l.outermost?.map fun p => (p.origin, p.mark)

/-- Crossing into another text does not change what a location is attributed to first. -/
theorem attributed?_via {l : Location} (h : l.chain ≠ []) (hop : Hop) (inner : Location) :
    (l.via hop inner).attributed? = l.attributed? := by
  obtain ⟨chain⟩ := l
  match chain, h with
  | [p], _ => rfl
  | p :: q :: rest, _ => rfl

end Location

namespace Template

/-- **Where the nodes of an expansion stand.** The events of an expansion replay nodes, and each of
    these, at any depth, is a part of what the caller supplied, just as it was supplied; or a part
    of a default that counts, just as it was declared; or a node of the body, whose location is that
    of the call with the location in the definition behind it, so that it is attributed to the call
    first, and the same holds of the end of a group. -/
theorem transform_attributed (t : Template) {inv : Invocation}
    (hcall : inv.node.location.chain ≠ []) :
    ∃ ns, Event.Replays (t.transform inv).events ns ∧ ∀ m ∈ ns.flatMap Node.preorder,
      m ∈ inv.supplied.flatMap Node.preorder ∨
        (∃ d, t.FallsBackOn inv d ∧ m ∈ d.preorder) ∨
        ∃ k ∈ t.body.flatMap Node.preorder, (t.transform inv).Moves k m ∧
          m.location.chain
            = Location.relink .template inv.node.location.chain ++ k.location.chain ∧
          m.stop.chain = Location.relink .template inv.node.location.chain ++ k.stop.chain ∧
          m.location.attributed? = inv.node.location.attributed? ∧
          m.stop.attributed? = inv.node.location.attributed? := by
  refine ⟨_, Substitution.replays_events (t.transform inv), ?_⟩
  intro m hm
  rcases Substitution.nodesAll_sources t.body m hm with ⟨b, hb, hvalue⟩ | ⟨k, hk, hmoves⟩
  · -- a part of a value, which was supplied or is a default
    obtain ⟨n, hn, hm⟩ := List.mem_flatMap.mp hvalue
    rcases t.bind_sources inv b hb n hn with hsupplied | hdefault
    · exact .inl (List.mem_flatMap.mpr ⟨n, hsupplied, hm⟩)
    · exact .inr (.inl ⟨n, hdefault, hm⟩)
  · have hlocation : m.location = inv.node.location.via .template k.location := hmoves.location
    have hstop : m.stop = inv.node.location.via .template k.stop := hmoves.stop
    refine .inr (.inr ⟨k, hk, hmoves, ?_, ?_, ?_, ?_⟩)
    · rw [hlocation, Location.chain_via]
    · rw [hstop, Location.chain_via]
    · rw [hlocation, Location.attributed?_via hcall]
    · rw [hstop, Location.attributed?_via hcall]

/-- A body with a parameter that is left out and one that is given. -/
def boxed : Template where
  name := "t"
  location := .ofMark "doc" ⟨0, 1, 1⟩
  body := [.group .paren
    [.atom (Atom.plain "box" (.ofMark "doc" ⟨24, 1, 25⟩)),
      .atom (Atom.plain "@x" (.ofMark "doc" ⟨28, 1, 29⟩)),
      .atom (Atom.plain "@1" (.ofMark "doc" ⟨31, 1, 32⟩))]
    (.ofMark "doc" ⟨23, 1, 24⟩) (.ofMark "doc" ⟨33, 1, 34⟩)]
  named := [("x", .value (.atom (Atom.plain "d" (.ofMark "doc" ⟨17, 1, 18⟩))))]
  positional := [.required]

/-- The call of `boxed` with its positional argument. -/
def boxedCall : Invocation where
  name := "t"
  node := .group .paren [] (.ofMark "doc" ⟨36, 1, 37⟩) (.ofMark "doc" ⟨40, 1, 41⟩)
  arguments := []
  remainder := [.atom (Atom.plain "e" (.ofMark "doc" ⟨39, 1, 40⟩))]

/-- The default of `boxed` counts, and the nodes of the body stand at the call. -/
theorem transform_attributed_boxed :
    boxedCall.node.location.chain ≠ [] ∧
      boxed.FallsBackOn boxedCall (.atom (Atom.plain "d" (.ofMark "doc" ⟨17, 1, 18⟩))) ∧
      ∃ ns, Event.Replays (boxed.transform boxedCall).events ns ∧
        ∀ m ∈ ns.flatMap Node.preorder,
          m ∈ boxedCall.supplied.flatMap Node.preorder ∨
            (∃ d, boxed.FallsBackOn boxedCall d ∧ m ∈ d.preorder) ∨
            m.location.attributed? = some ("doc", ⟨36, 1, 37⟩) := by
  have hcall : boxedCall.node.location.chain ≠ [] := by decide
  refine ⟨hcall, .named List.mem_cons_self rfl, ?_⟩
  obtain ⟨ns, hns, hsources⟩ := transform_attributed boxed hcall
  refine ⟨ns, hns, fun m hm => ?_⟩
  rcases hsources m hm with hsupplied | hdefault | ⟨_, _, _, _, _, hfirst, _⟩
  · exact .inl hsupplied
  · exact .inr (.inl hdefault)
  · exact .inr (.inr hfirst)

/-- **A default is attributed to the definition.** Nothing is reported, and the only node that is
    left stands in the definition: neither did the caller supply it, nor does its place mention the
    call. -/
theorem expandSource_default :
    let done := ({} : Options).expandSource "doc" "(template t ([@x d]) @x) (t)"
    done.reports.length = 0 ∧ done.nodes.map Node.text = ["d"] ∧
      done.nodes.map (fun n => n.location.text) = ["doc:1:18"] ∧
      done.nodes.map (fun n => n.location.attributed?) = [some ("doc", ⟨17, 1, 18⟩)] := by
  decide +kernel

end Template

end Formwork
