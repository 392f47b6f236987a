import Formwork.Proofs.Cutout.Calls
import Formwork.Proofs.Cutout.Moments

namespace Formwork

/-!
# What a rewrite leaves

A cutter that wants the same heads in all its states takes every group with such a head out, of the
nodes and of its answers, when the group is one from the start. A group is asked about once, before
its children are rewritten; one that is led by a group that is taken out may have a wanted head in
the end, and stays.

* `Cutter.Wants` — a cutter that wants the same heads in all its states.
* `Cutter.Wants.rewrite_leaves` — a group that is left with a wanted head was led by a group that
  was taken out.
* `Cutter.rewriteAll_of_unwanted` — nodes without wanted groups are rewritten to themselves, and
  the cutter is only asked about their heads.
-/

variable {σ : Type}

namespace Node

/-! ### Groups with a wanted head -/

/-- Whether a node is a group whose head is one of some names. -/
def Wanted (wanted : String → Prop) (n : Node) : Prop :=
  ∃ name, n.headName? = some name ∧ wanted name

/-- Whether the first child of a node, comments apart, is such a group. -/
def LedByWanted (wanted : String → Prop) (n : Node) : Prop :=
  ∃ h, n.head? = some h ∧ h.Wanted wanted

instance (wanted : String → Prop) [DecidablePred wanted] (n : Node) :
    Decidable (n.Wanted wanted) :=
  decidable_of_iff (n.headName?.any fun name => wanted name) (by simp [Wanted, Option.any_eq_true])

instance (wanted : String → Prop) [DecidablePred wanted] (n : Node) :
    Decidable (n.LedByWanted wanted) :=
  decidable_of_iff (n.head?.any fun h => h.Wanted wanted)
    (by simp [LedByWanted, Option.any_eq_true])

/-- Whether two nodes are groups with the same brackets at the same places. -/
def SameBrackets (m n : Node) : Prop :=
  ∃ d cs ds l stop, m = .group d cs l stop ∧ n = .group d ds l stop

/-- Whether each group among and inside `left` that has a wanted head has the brackets of one among
    and inside `sources` that is led by a group with a wanted head. -/
def LeftOf (wanted : String → Prop) (sources left : List Node) : Prop :=
  ∀ g ∈ left.flatMap preorder, g.Wanted wanted →
    ∃ m ∈ sources.flatMap preorder, m.LedByWanted wanted ∧ m.SameBrackets g

variable {wanted : String → Prop}

/-- An atom is no group, so it has no head. -/
theorem not_wanted_atom (a : Atom) : ¬(Node.atom a).Wanted wanted := by
  simp [Wanted, headName?, head?, exprs, children]

/-- Neither has a comment. -/
theorem not_wanted_comment (c : Comment) : ¬(Node.comment c).Wanted wanted := by
  simp [Wanted, headName?, head?, exprs, children]

/-- Comments do not count for the head of a group. -/
theorem head?_comment_cons (d : Delim) (c : Comment) (cs : List Node) (l stop : Location) :
    (Node.group d (.comment c :: cs) l stop).head? = (Node.group d cs l stop).head? := by
  simp [head?, exprs, children, isComment]

/-- The first child that is no comment is the head of a group. -/
theorem head?_cons {n : Node} (hn : n.isComment = false) (d : Delim) (cs : List Node)
    (l stop : Location) : (Node.group d (n :: cs) l stop).head? = some n := by
  simp [head?, exprs, children, hn]

/-- What is among and inside a node that was made plain is what was there, made plain. -/
theorem exists_of_mem_preorder_plain (n : Node) :
    ∀ g ∈ n.plain.preorder, ∃ m ∈ n.preorder, g = m.plain := by
  induction n using induct with
  | atom a => exact fun g hg => ⟨.atom a, List.mem_singleton_self _, List.mem_singleton.mp hg⟩
  | comment c => exact fun g hg => ⟨.comment c, List.mem_singleton_self _, List.mem_singleton.mp hg⟩
  | group d cs l stop ih =>
    intro g hg
    rw [plain, preorder_group, plainAll_eq_map, List.flatMap_map] at hg
    rw [preorder_group]
    obtain rfl | hg := List.mem_cons.mp hg
    · exact ⟨_, List.mem_cons_self, by rw [plain, plainAll_eq_map]⟩
    · obtain ⟨c, hc, hg⟩ := List.mem_flatMap.mp hg
      obtain ⟨m, hm, rfl⟩ := ih c hc g hg
      exact ⟨m, List.mem_cons_of_mem _ (List.mem_flatMap.mpr ⟨c, hc, hm⟩), rfl⟩

/-- What is inside nodes that were made plain was inside of them before. -/
theorem exists_of_mem_preorder_plainAll {ns : List Node} {g : Node}
    (hg : g ∈ (plainAll ns).flatMap preorder) : ∃ m ∈ ns.flatMap preorder, g = m.plain := by
  rw [plainAll_eq_map, List.flatMap_map] at hg
  obtain ⟨n, hn, hg⟩ := List.mem_flatMap.mp hg
  obtain ⟨m, hm, rfl⟩ := exists_of_mem_preorder_plain n g hg
  exact ⟨m, List.mem_flatMap.mpr ⟨n, hn, hm⟩, rfl⟩

/-- What is among and inside plain nodes is plain. -/
theorem plain_of_mem_preorder {ns : List Node} (h : plainAll ns = ns) :
    ∀ g ∈ ns.flatMap preorder, g.plain = g := by
  intro g hg
  rw [← h] at hg
  obtain ⟨m, -, rfl⟩ := exists_of_mem_preorder_plainAll hg
  exact plain_plain m

/-- Nothing is left of a node that is no group. -/
theorem leftOf_nil (sources : List Node) : LeftOf wanted sources [] := by
  simp [LeftOf]

/-- A node with nothing inside, and without a wanted head, leaves nothing to explain. -/
theorem leftOf_of_unwanted {n : Node} (hn : n.preorder = [n]) (hwanted : ¬n.Wanted wanted)
    (sources : List Node) : LeftOf wanted sources [n] := by
  intro g hg hyes
  rw [List.flatMap_singleton, hn, List.mem_singleton] at hg
  exact absurd (hg ▸ hyes) hwanted

/-- What is left may be explained by more sources. -/
theorem LeftOf.mono {sources sources' left : List Node} (h : LeftOf wanted sources left)
    (hsub : sources ⊆ sources') : LeftOf wanted sources' left := by
  intro g hg hwanted
  obtain ⟨m, hm, hled⟩ := h g hg hwanted
  obtain ⟨n, hn, hmn⟩ := List.mem_flatMap.mp hm
  exact ⟨m, List.mem_flatMap.mpr ⟨n, hsub hn, hmn⟩, hled⟩

/-- What is left of two parts is explained part by part. -/
theorem LeftOf.append {sources left right : List Node} (hl : LeftOf wanted sources left)
    (hr : LeftOf wanted sources right) : LeftOf wanted sources (left ++ right) := by
  intro g hg hwanted
  rw [List.flatMap_append] at hg
  obtain hg | hg := List.mem_append.mp hg
  · exact hl g hg hwanted
  · exact hr g hg hwanted

/-- What is left inside a group that stays, and the group itself if it is led by a wanted one. -/
theorem LeftOf.group {d : Delim} {cs ds answers : List Node} {l stop : Location}
    (h : LeftOf wanted (cs ++ answers) ds)
    (hself : (Node.group d ds l stop).Wanted wanted → (Node.group d cs l stop).LedByWanted wanted) :
    LeftOf wanted (.group d cs l stop :: answers) [.group d ds l stop] := by
  intro g hg hwanted
  rw [List.flatMap_singleton, preorder_group] at hg
  rw [List.flatMap_cons, preorder_group]
  -- either it is the group itself, which stays with its brackets, or it is inside
  obtain rfl | hg := List.mem_cons.mp hg
  · exact ⟨.group d cs l stop, List.mem_append_left _ List.mem_cons_self, hself hwanted,
      d, cs, ds, l, stop, rfl, rfl⟩
  · obtain ⟨m, hm, hled⟩ := h g hg hwanted
    rw [List.flatMap_append, List.mem_append] at hm
    refine ⟨m, ?_, hled⟩
    obtain hm | hm := hm
    · exact List.mem_append_left _ (List.mem_cons_of_mem _ hm)
    · exact List.mem_append_right _ hm

end Node

namespace Cutter

/-! ### Cutters that want the same heads in all states -/

/-- Whether a cutter wants the same heads in all states with a property that it keeps. -/
structure Wants (cutter : Cutter σ Builder) (Inv : σ → Prop) (wanted : String → Prop) : Prop
    extends cutter.Keeps Inv where
  isSome_cut : ∀ s head, Inv s → ((cutter.cut s head).2.isSome ↔ wanted head)

/-- Noting calls does not change what a cutter wants. -/
theorem Wants.logged {cutter : Cutter σ Builder} {Inv : σ → Prop} {wanted : String → Prop}
    (h : cutter.Wants Inv wanted) : cutter.logged.Wants (fun s => Inv s.1) wanted where
  cut s head hs := h.cut s.1 head hs
  paste s b hs := h.paste s.1 b hs
  pasted s hs := h.pasted s.1 hs
  isSome_cut s head hs := h.isSome_cut s.1 head hs

section

variable {cutter : Cutter σ Builder} {Inv : σ → Prop} {wanted : String → Prop}

/-- Asking about a head keeps the property, and a head is wanted when it is one of the wanted
    names. -/
theorem Wants.ask (h : cutter.Wants Inv wanted) {s : σ} (hs : Inv s) (head : Option String) :
    Inv (cutter.ask s head).1 ∧
      ((cutter.ask s head).2 = true ↔ ∃ name, head = some name ∧ wanted name) := by
  cases head with
  | none => exact ⟨hs, by simp [Cutter.ask]⟩
  | some name =>
    refine ⟨h.cut s name hs, ?_⟩
    have hcut := h.isSome_cut s name hs
    simp only [Cutter.ask, Option.some.injEq, exists_eq_left']
    exact hcut

/-! ### The head of a group that stays -/

/-- The children of a group that is not led by a wanted one are rewritten to children with the same
    head. -/
theorem Wants.headName?_rewriteAll (h : cutter.Wants Inv wanted)
    {replay : List Node → σ → Option (σ × List Node)} {d : Delim} {cs : List Node}
    {l stop : Location} {s : σ} {r : σ × List Node} (hs : Inv s)
    (hr : cutter.rewriteAll replay cs s = some r)
    (hled : ¬(Node.group d cs l stop).LedByWanted wanted) :
    (Node.group d r.2 l stop).headName? = (Node.group d cs l stop).headName? := by
  induction cs generalizing s r with
  | nil => cases hr; rfl
  | cons n cs ih =>
    obtain ⟨q, hq, hr⟩ := Option.bind_eq_some_iff.mp hr
    obtain ⟨p, hp, rfl⟩ := Option.map_eq_some_iff.mp hr
    cases n with
    | comment c =>
      cases hq
      rw [Node.LedByWanted, Node.head?_comment_cons] at hled
      have hsame := ih hs hp hled
      rw [List.singleton_append]
      unfold Node.headName? at hsame ⊢
      rw [Node.head?_comment_cons, Node.head?_comment_cons, hsame]
    | atom a =>
      cases hq
      rw [List.singleton_append, Node.headName?, Node.headName?, Node.head?_cons rfl,
        Node.head?_cons rfl]
    | group d' cs' l' stop' =>
      -- the group that leads is not taken out, so it is a group that leads in the end
      have hstays : ¬(Node.group d' cs' l' stop').Wanted wanted := fun hwanted =>
        hled ⟨_, Node.head?_cons rfl d cs l stop, hwanted⟩
      obtain ⟨q', -, hq⟩ := Option.bind_eq_some_iff.mp hq
      have hask : ¬(cutter.ask s (Node.group d' cs' l' stop').headName?).2 = true :=
        mt (h.ask hs _).2.mp hstays
      rw [if_neg hask] at hq
      cases hq
      rw [List.singleton_append, Node.headName?, Node.headName?, Node.head?_cons rfl,
        Node.head?_cons rfl]
      rfl

end

/-! ### What is left of nodes and answers -/

/-- Whether what `replay` leaves comes from nodes and answers that it writes down, and whether it
    keeps a property of the state. -/
def Leaves (Inv : σ → Prop) (wanted : String → Prop)
    (replay : List Node → σ × List (Call Builder) →
      Option ((σ × List (Call Builder)) × List Node)) : Prop :=
  ∀ ns s r, Inv s.1 → replay ns s = some r →
    Inv r.1.1 ∧ ∃ calls, r.1.2 = s.2 ++ calls ∧
      Node.LeftOf wanted (ns ++ (Call.answers calls).flatten) r.2

section

variable {cutter : Cutter σ Builder} {Inv : σ → Prop} {wanted : String → Prop}
  {replay : List Node → σ × List (Call Builder) → Option ((σ × List (Call Builder)) × List Node)}

/-- What takes the place of a group comes from the answers. -/
theorem Wants.replace_leaves (h : cutter.Wants Inv wanted) (hr : Leaves Inv wanted replay)
    {g : Node} {s : σ × List (Call Builder)} {r : (σ × List (Call Builder)) × List Node}
    (hs : Inv s.1) (hg : cutter.logged.replace replay g s = some r) :
    Inv r.1.1 ∧ ∃ calls, r.1.2 = s.2 ++ calls ∧
      Node.LeftOf wanted (Call.answers calls).flatten r.2 := by
  have hpaste := h.paste s.1 (Builder.holding g) hs
  unfold replace at hg
  cases hp : cutter.paste s.1 (Builder.holding g) with
  | mk s' answer =>
    rw [hp] at hpaste
    cases answer with
    | none =>
      simp only [Cutter.logged, hp, Option.some.injEq] at hg
      subst hg
      exact ⟨hpaste, [.paste (Builder.holding g) none], rfl, Node.leftOf_nil _⟩
    -- the answer goes through at the level below, where what is left of it is explained
    | some answer =>
      simp only [Cutter.logged, hp] at hg
      obtain ⟨q, hq, rfl⟩ := Option.map_eq_some_iff.mp hg
      obtain ⟨hinv, calls, hcalls, hleft⟩ := hr _ _ _ hpaste hq
      refine ⟨h.pasted _ hinv, .paste (Builder.holding g) (some answer) :: calls ++ [.pasted],
        ?_, ?_⟩
      · simp [hcalls]
      · simpa [Call.answers] using hleft

mutual

/-- What is left of a node is explained by the node and the answers to what was handed over. -/
theorem Wants.rewriteNode_leaves (h : cutter.Wants Inv wanted) (hr : Leaves Inv wanted replay) :
    ∀ (n : Node) (s : σ × List (Call Builder)) (r : (σ × List (Call Builder)) × List Node),
      Inv s.1 → cutter.logged.rewriteNode replay n s = some r →
        Inv r.1.1 ∧ ∃ calls, r.1.2 = s.2 ++ calls ∧
          Node.LeftOf wanted (n :: (Call.answers calls).flatten) r.2
  | .atom a, s, r, hs, hn => by
    cases hn
    exact ⟨hs, [], by simp, Node.leftOf_of_unwanted rfl (Node.not_wanted_atom a) _⟩
  | .comment c, s, r, hs, hn => by
    cases hn
    exact ⟨hs, [], by simp, Node.leftOf_of_unwanted rfl (Node.not_wanted_comment c) _⟩
  | .group d cs l stop, s, r, hs, hn => by
    obtain ⟨q, hq, hn⟩ := Option.bind_eq_some_iff.mp hn
    obtain ⟨hinv, hask⟩ := h.logged.ask hs (Node.group d cs l stop).headName?
    obtain ⟨hinner, inner, hcalls, hleft⟩ := rewriteAll_leaves h hr cs _ q hinv hq
    rw [ask_logged] at hcalls
    split at hn
    case isTrue =>
      -- the group is taken out, and only what takes its place is left
      obtain ⟨hlast, last, hcalls', hleft'⟩ := h.replace_leaves hr hinner hn
      refine ⟨hlast, ((Node.group d cs l stop).headName?.map Call.cut).toList ++ inner ++ last,
        by simp [hcalls', hcalls], hleft'.mono ?_⟩
      simp only [Call.answers_append, List.flatten_append]
      exact fun m hm => List.mem_cons_of_mem _ (List.mem_append_right _ hm)
    case isFalse hno =>
      cases hn
      refine ⟨hinner, ((Node.group d cs l stop).headName?.map Call.cut).toList ++ inner,
        by simp [hcalls], ?_⟩
      have hanswers : Call.answers
          (((Node.group d cs l stop).headName?.map Call.cut).toList ++ inner : List (Call Builder))
            = Call.answers inner := by
        cases (Node.group d cs l stop).headName? <;> rfl
      rw [hanswers]
      refine hleft.group fun hwanted => ?_
      -- otherwise the head is what it was, and the cutter would have been asked about it
      by_contra hled
      have hsame := h.logged.headName?_rewriteAll hinv hq hled
      rw [Node.Wanted, hsame] at hwanted
      exact hno (hask.mpr hwanted)

/-- What is left of nodes comes from these nodes and the answers. -/
theorem Wants.rewriteAll_leaves (h : cutter.Wants Inv wanted) (hr : Leaves Inv wanted replay) :
    Leaves Inv wanted (cutter.logged.rewriteAll replay)
  | [], s, r, hs, hns => by
    cases hns
    exact ⟨hs, [], by simp, Node.leftOf_nil _⟩
  | n :: ns, s, r, hs, hns => by
    obtain ⟨q, hq, hns⟩ := Option.bind_eq_some_iff.mp hns
    obtain ⟨p, hp, rfl⟩ := Option.map_eq_some_iff.mp hns
    obtain ⟨hinv, xs, hxs, hx⟩ := rewriteNode_leaves h hr n s q hs hq
    obtain ⟨hinv', ys, hys, hy⟩ := rewriteAll_leaves h hr ns q.1 p hinv hp
    refine ⟨hinv', xs ++ ys, by simp [hxs, hys], ?_⟩
    simp only [Call.answers_append, List.flatten_append]
    refine (hx.mono ?_).append (hy.mono ?_)
    · intro m hm
      simp only [List.mem_cons, List.mem_append] at hm ⊢
      tauto
    · intro m hm
      simp only [List.mem_cons, List.mem_append] at hm ⊢
      tauto

end

/-- **A group that is left with a wanted head** was led by a group that was taken out, among the
    nodes or the answers. -/
theorem Wants.rewrite_leaves (h : cutter.Wants Inv wanted) (levels : Nat) :
    Leaves Inv wanted (cutter.logged.rewrite levels) := by
  induction levels with
  | zero => exact h.rewriteAll_leaves (by simp [Leaves])
  | succ levels ih => exact h.rewriteAll_leaves ih

end

/-! ### Nothing to take out -/

section

variable {cutter : Cutter σ Builder} {Inv : σ → Prop} {wanted : String → Prop}
  {replay : List Node → σ → Option (σ × List Node)}

mutual

/-- A node in which nothing has a wanted head is rewritten to itself. -/
theorem Wants.rewriteNode_of_unwanted (h : cutter.Wants Inv wanted)
    (hcut : ∀ s head, (cutter.cut s head).1 = s) :
    ∀ (n : Node) (s : σ), Inv s → (∀ g ∈ n.preorder, ¬g.Wanted wanted) →
      cutter.rewriteNode replay n s = some (s, [n])
  | .atom _, _, _, _ => rfl
  | .comment _, _, _, _ => rfl
  | .group d cs l stop, s, hs, hn => by
    rw [Node.preorder_group] at hn
    have hask : ¬(cutter.ask s (Node.group d cs l stop).headName?).2 = true :=
      mt (h.ask hs _).2.mp (hn _ List.mem_cons_self)
    have hsame : (cutter.ask s (Node.group d cs l stop).headName?).1 = s := by
      cases (Node.group d cs l stop).headName? with
      | none => rfl
      | some name => exact hcut s name
    have hcs := rewriteAll_of_unwanted h hcut cs s hs fun g hg => hn g (List.mem_cons_of_mem _ hg)
    rw [rewriteNode, hsame, hcs, Option.bind_some, if_neg hask]

/-- **Nodes without wanted groups** are rewritten to themselves. -/
theorem Wants.rewriteAll_of_unwanted (h : cutter.Wants Inv wanted)
    (hcut : ∀ s head, (cutter.cut s head).1 = s) :
    ∀ (ns : List Node) (s : σ), Inv s → (∀ g ∈ ns.flatMap Node.preorder, ¬g.Wanted wanted) →
      cutter.rewriteAll replay ns s = some (s, ns)
  | [], _, _, _ => rfl
  | n :: ns, s, hs, hns => by
    rw [List.flatMap_cons] at hns
    have hn := rewriteNode_of_unwanted h hcut n s hs fun g hg =>
      hns g (List.mem_append_left _ hg)
    have hrest := rewriteAll_of_unwanted h hcut ns s hs fun g hg =>
      hns g (List.mem_append_right _ hg)
    rw [rewriteAll, hn, Option.bind_some, hrest]
    rfl

end

/-- So are nodes in which nothing has a wanted head, at any level. -/
theorem Wants.rewrite_of_unwanted (h : cutter.Wants Inv wanted)
    (hcut : ∀ s head, (cutter.cut s head).1 = s) (levels : Nat) {ns : List Node} {s : σ}
    (hs : Inv s) (hns : ∀ g ∈ ns.flatMap Node.preorder, ¬g.Wanted wanted) :
    cutter.rewrite levels ns s = some (s, ns) := by
  cases levels <;> exact h.rewriteAll_of_unwanted hcut ns s hs hns

section

variable {replay : List Node → σ × List (Call Builder) →
  Option ((σ × List (Call Builder)) × List Node)}

mutual

/-- All that is asked of the cutter on the way are the heads, in document order. -/
theorem Wants.rewriteNode_logged_of_unwanted (h : cutter.Wants Inv wanted)
    (hcut : ∀ s head, (cutter.cut s head).1 = s) :
    ∀ (n : Node) (s : σ) (calls : List (Call Builder)), Inv s →
      (∀ g ∈ n.preorder, ¬g.Wanted wanted) →
      cutter.logged.rewriteNode replay n (s, calls)
        = some ((s, calls ++ (n.preorder.filterMap Node.headName?).map .cut), [n])
  | .atom _, s, calls, _, _ => by
    rw [rewriteNode_atom, show (Node.atom _).preorder.filterMap Node.headName? = [] from rfl,
      List.map_nil, List.append_nil]
  | .comment _, s, calls, _, _ => by
    rw [rewriteNode, show (Node.comment _).preorder.filterMap Node.headName? = [] from rfl,
      List.map_nil, List.append_nil]
  | .group d cs l stop, s, calls, hs, hn => by
    rw [Node.preorder_group] at hn
    have hask : ¬(cutter.ask s (Node.group d cs l stop).headName?).2 = true :=
      mt (h.ask hs _).2.mp (hn _ List.mem_cons_self)
    -- asking leaves the state as it is, and the answer is no
    have hsame : (cutter.ask s (Node.group d cs l stop).headName?).1 = s := by
      cases (Node.group d cs l stop).headName? with
      | none => rfl
      | some name => exact hcut s name
    have hcs := fun calls => rewriteAll_logged_of_unwanted h hcut cs s calls hs
      fun g hg => hn g (List.mem_cons_of_mem _ hg)
    rw [rewriteNode, ask_logged, hsame, hcs, Option.bind_some, if_neg hask,
      Node.filterMap_preorder_group]
    cases (Node.group d cs l stop).headName? <;> simp

/-- **Only questions**: over nodes without wanted groups, a cutter is asked about the head of each
    group, and no group is handed over. -/
theorem Wants.rewriteAll_logged_of_unwanted (h : cutter.Wants Inv wanted)
    (hcut : ∀ s head, (cutter.cut s head).1 = s) :
    ∀ (ns : List Node) (s : σ) (calls : List (Call Builder)), Inv s →
      (∀ g ∈ ns.flatMap Node.preorder, ¬g.Wanted wanted) →
      cutter.logged.rewriteAll replay ns (s, calls)
        = some ((s, calls ++ (Node.headNames ns).map .cut), ns)
  | [], s, calls, _, _ => by
    rw [rewriteAll, show Node.headNames [] = [] from rfl, List.map_nil, List.append_nil]
  | n :: ns, s, calls, hs, hns => by
    rw [List.flatMap_cons] at hns
    rw [rewriteAll, rewriteNode_logged_of_unwanted h hcut n s calls hs
      fun g hg => hns g (List.mem_append_left _ hg), Option.bind_some,
      rewriteAll_logged_of_unwanted h hcut ns s _ hs fun g hg => hns g (List.mem_append_right _ hg)]
    simp

end

/-- So it is for nodes, at any level: nothing is handed over. -/
theorem Wants.rewrite_logged_of_unwanted (h : cutter.Wants Inv wanted)
    (hcut : ∀ s head, (cutter.cut s head).1 = s) (levels : Nat) {ns : List Node} {s : σ}
    (hs : Inv s) (hns : ∀ g ∈ ns.flatMap Node.preorder, ¬g.Wanted wanted) :
    cutter.logged.rewrite levels ns (s, []) = some ((s, (Node.headNames ns).map .cut), ns) := by
  cases levels <;> exact h.rewriteAll_logged_of_unwanted hcut ns s [] hs hns

end

end

end Cutter

end Formwork
