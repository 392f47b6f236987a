import Formwork.Proofs.Expander.Leftovers
import Formwork.Proofs.Expander.Reported
import Formwork.Proofs.Provenance.CallSites
import Formwork.Proofs.Template.Binding
import Formwork.Proofs.Template.Stripping

namespace Formwork

/-!
# Invocations inside arguments

An invocation in an argument is expanded while the invocation around it is still being collected,
when no expansion is going on. Its expansion goes through again as a part of the outer one; if
nothing in it looks like an invocation any more, nothing happens to it then. So it makes no
difference how deep invocations are nested in arguments: where the templates bring no invocations
of their own, no expansion ever begins inside another.

* `Template.BringsNone` — templates that bring no invocations of their own: their expansions hold
  none if what the caller supplies holds none (`Template.BringsNone.free`).
* `Expander.Rests.rewriteAll_leaves` — from an expander at rest, rewriting leaves one at rest, and
  nodes without invocations.
* `Expander.expandNodes_nested` — so no invocation is reported for being inside another expansion.
-/

/-! ### Heads of plain and of filled-in groups -/

namespace Node

variable {wanted : String → Prop}

theorem wanted_plain (n : Node) : n.plain.Wanted wanted ↔ n.Wanted wanted := by
  rw [Wanted, Wanted, headName?_plain]

theorem ledByWanted_plain (n : Node) : n.plain.LedByWanted wanted ↔ n.LedByWanted wanted := by
  simp only [LedByWanted, head?_plain, Option.map_eq_some_iff]
  constructor
  · rintro ⟨_, ⟨h, hhead, rfl⟩, hwanted⟩
    exact ⟨h, hhead, (wanted_plain h).mp hwanted⟩
  · rintro ⟨h, hhead, hwanted⟩
    exact ⟨h.plain, ⟨h, hhead, rfl⟩, (wanted_plain h).mpr hwanted⟩

end Node

/-- Filling in a group of the body does not change its head, if this is not filled in itself. -/
theorem Substitution.headName?_nodesAll {s : Substitution} {d : Delim} {cs : List Node}
    {l stop l' stop' : Location}
    (hhead : ∀ a, (Node.group d cs l stop).head? = some (.atom a) → s.bound? a.value = none) :
    (Node.group d (s.nodesAll cs) l' stop').headName? = (Node.group d cs l stop).headName? := by
  induction cs with
  | nil => rfl
  | cons n cs ih =>
    cases n with
    | comment c =>
      rw [Node.head?_comment_cons] at hhead
      -- a comment is no head, so the head is that of the rest
      have hsame := ih hhead
      have hcomment : s.nodesAll (.comment c :: cs)
          = .comment { c with location := s.relocate c.location } :: s.nodesAll cs := rfl
      unfold Node.headName? at hsame ⊢
      rw [hcomment, Node.head?_comment_cons, Node.head?_comment_cons, hsame]
    | atom a =>
      -- an atom that is the head is not bound, and is replaced by itself
      have hfree := hhead a (Node.head?_cons rfl d cs l stop)
      have hatom : s.nodes (.atom a) = [.atom { a with location := s.relocate a.location }] := by
        simp only [nodes, hfree]
      rw [nodesAll, hatom, List.singleton_append, Node.headName?, Node.headName?,
        Node.head?_cons rfl, Node.head?_cons rfl]
      rfl
    | group d' cs' l₁ stop₁ =>
      have hgroup : s.nodes (.group d' cs' l₁ stop₁)
          = [.group d' (s.nodesAll cs') (s.relocate l₁) (s.relocate stop₁)] := rfl
      rw [nodesAll, hgroup, List.singleton_append, Node.headName?, Node.headName?,
        Node.head?_cons rfl, Node.head?_cons rfl]
      rfl

/-! ### Templates without invocations -/

/-- What the caller supplies is among what stands in the group. -/
theorem Invocation.mem_exprs_of_supplied {g : Node} {inv : Invocation} (h : ofNode g = .ok inv)
    {n : Node} (hn : n ∈ inv.supplied) : n ∈ g.exprs := by
  obtain ⟨p, hp, rfl⟩ := ((ofNode_follows g).accepts inv).mp h
  rw [hp.2, Phrase.nodes]
  refine List.mem_cons_of_mem _ (List.mem_append.mpr ((List.mem_append.mp hn).imp_left ?_))
  intro hvalue
  obtain ⟨e, he, rfl⟩ := List.mem_map.mp hvalue
  obtain ⟨pair, hpair, rfl⟩ := List.mem_map.mp he
  exact List.mem_flatMap.mpr ⟨pair, hpair, List.mem_cons_of_mem _ List.mem_cons_self⟩

namespace Template

/-- The nodes that parameters fall back on. -/
def defaults (t : Template) : List Node :=
  t.named.flatMap (fun p => p.2.bound?.getD []) ++ t.positional.flatMap (fun f => f.bound?.getD [])
    ++ t.rest.getD []

variable {t : Template} {inv : Invocation}

theorem FallsBackOn.mem_defaults {n : Node} (h : t.FallsBackOn inv n) : n ∈ t.defaults := by
  unfold defaults
  cases h with
  | named declared _ =>
    exact List.mem_append_left _ (List.mem_append_left _
      (List.mem_flatMap.mpr ⟨_, declared, List.mem_singleton_self n⟩))
  | positional declared _ =>
    exact List.mem_append_left _ (List.mem_append_right _
      (List.mem_flatMap.mpr ⟨_, List.mem_of_getElem? declared, List.mem_singleton_self n⟩))
  | rest declared mem _ =>
    refine List.mem_append_right _ ?_
    rw [declared]
    exact mem

/-- No parameter of a template that is read has an empty name. -/
theorem name_ne_of_define {definition : Node} {reports : List Report}
    (h : define definition = .ok (t, reports)) : ∀ p ∈ t.named, p.1 ≠ "" := by
  obtain ⟨d, ⟨params, -, hwritten⟩, heq⟩ := ((define_follows definition).accepts _).mp h
  obtain ⟨rfl, -⟩ := Prod.mk.inj heq
  have hnames : ∀ p ∈ d.parameters, p.name ≠ "" := by
    generalize d.parameters = ps at hwritten
    induction hwritten with
    | nil => simp
    | cons hw _ ih =>
      refine List.forall_mem_cons.mpr ⟨?_, ih⟩
      cases hw with
      | alone hname _ => exact hname
      | group _ hname _ => exact hname
  intro p hp
  obtain ⟨q, hq, rfl⟩ := List.mem_map.mp hp
  exact hnames q (List.mem_filter.mp hq).1

/-- A positional parameter is bound to a numeral. -/
theorem exists_numeral_of_mem_bindPositional (number : Nat) (fs : List Fallback)
    (ns : List Node) : ∀ b ∈ bindPositional number fs ns, ∃ i : Nat, b.1 = toString i := by
  intro b hb
  induction fs generalizing number ns with
  | nil => cases hb
  | cons f fs ih =>
    obtain hb | hb := List.mem_append.mp hb
    · obtain ⟨ms, -, rfl⟩ := List.mem_map.mp hb
      exact ⟨number, rfl⟩
    · exact ih (number + 1) ns.tail hb

/-- So nothing is bound to the empty name. -/
theorem key_ne_of_mem_bind (hnames : ∀ p ∈ t.named, p.1 ≠ "") : ∀ b ∈ t.bind inv, b.1 ≠ "" := by
  intro b hb
  unfold bind at hb
  -- a key is the name of a parameter, a numeral or the name of the rest
  rcases List.mem_append.mp hb with hb | hb
  · rcases List.mem_append.mp hb with hb | hb
    · obtain ⟨p, hp, hb⟩ := List.mem_filterMap.mp hb
      obtain ⟨ns, -, rfl⟩ := Option.map_eq_some_iff.mp hb
      exact hnames p hp
    · obtain ⟨i, hi⟩ := exists_numeral_of_mem_bindPositional 1 _ _ b hb
      intro hempty
      -- a numeral has a digit
      have hlength := congrArg String.length (hi.symm.trans hempty)
      simp at hlength
  · unfold bindRest at hb
    split at hb
    · cases hb
    · obtain rfl := List.mem_singleton.mp hb
      show restName ≠ ""
      decide

/-- What is no placeholder stands for itself. -/
theorem bound?_of_placeholder? (hnames : ∀ p ∈ t.named, p.1 ≠ "") {a : Atom}
    (ha : a.placeholder? = none) : (t.transform inv).bound? a.value = none := by
  by_contra hbound
  obtain ⟨ns, hns⟩ := Option.ne_none_iff_exists'.mp hbound
  obtain ⟨name, hvalue, hname⟩ := Substitution.bound?_eq_some_iff.mp hns
  have hne : name ≠ "" := key_ne_of_mem_bind hnames _ (mem_of_lookup hname)
  rw [Atom.placeholder?_eq_some_iff.mpr ⟨hvalue, hne⟩] at ha
  cases ha

/-- **Templates that bring no invocations of their own**: no group of the body or of a default, at
    any depth, has the name of a rule for its head, and no group of the body has a placeholder
    there. -/
structure BringsNone (t : Template) (isRule : String → Prop) : Prop where
  /-- The template was read from a definition. -/
  defined : ∃ definition reports, define definition = .ok (t, reports)
  body : ∀ g ∈ t.body.flatMap Node.preorder,
    ¬g.Wanted isRule ∧ g.head?.bind Node.placeholder? = none
  defaults : ∀ g ∈ t.defaults.flatMap Node.preorder, ¬g.Wanted isRule

variable {isRule : String → Prop}

/-- **No invocations in the expansion** if there are none in what the caller supplies. -/
theorem BringsNone.free (h : t.BringsNone isRule)
    (hsupplied : ∀ g ∈ inv.supplied.flatMap Node.preorder, ¬g.Wanted isRule) :
    ∀ g ∈ ((t.transform inv).nodesAll t.body).flatMap Node.preorder, ¬g.Wanted isRule := by
  intro g hg
  rcases Substitution.nodesAll_sources t.body g hg with ⟨b, hb, hvalue⟩ | ⟨k, hk, hmoves⟩
  · -- a part of a value
    obtain ⟨n, hn, hg⟩ := List.mem_flatMap.mp hvalue
    rcases t.bind_sources inv b hb n hn with hgiven | hdefault
    · exact hsupplied g (List.mem_flatMap.mpr ⟨n, hgiven, hg⟩)
    · exact h.defaults g (List.mem_flatMap.mpr ⟨n, hdefault.mem_defaults, hg⟩)
  · -- a node of the body, whose head is what it was
    obtain ⟨hunwanted, hplaceholder⟩ := h.body k hk
    cases hmoves with
    | atom => exact Node.not_wanted_atom _
    | comment => exact Node.not_wanted_comment _
    | group d cs l stop =>
      obtain ⟨definition, reports, hdefine⟩ := h.defined
      have hhead : ∀ a, (Node.group d cs l stop).head? = some (.atom a) →
          (t.transform inv).bound? a.value = none := by
        intro a ha
        rw [ha] at hplaceholder
        exact bound?_of_placeholder? (name_ne_of_define hdefine) hplaceholder
      rwa [Node.Wanted, Substitution.headName?_nodesAll hhead]

end Template

/-! ### Reports of nesting -/

/-- Whether the problem is that an invocation stands inside expansions that are going on. -/
def Problem.ofNesting : Problem → Bool
  | .recursiveExpansion _ | .expansionDepthExceeded _ => true
  | _ => false

/-- Problems of other work are not of nesting. -/
theorem Problem.ofNesting_of_category {p : Problem} (h : p.category ≠ .expansion) :
    p.ofNesting = false := by
  cases p <;> first | rfl | exact absurd rfl h

/-- What is wrong with the arguments of an invocation is not of nesting. -/
theorem Shape.ofNesting_violations (s : Shape) (inv : Invocation) :
    ∀ r ∈ s.violations inv, r.problem.ofNesting = false := by
  intro r hr
  rcases s.problem_violations inv r hr with ⟨_, h⟩ | ⟨_, h⟩ | ⟨_, _, h⟩ | ⟨_, _, h⟩ <;>
    rw [h] <;> rfl

namespace Expander

/-! ### Expanders at rest -/

/-- Whether no node among and inside some nodes is an invocation. -/
def Free (x : Expander) (ns : List Node) : Prop :=
  ∀ g ∈ ns.flatMap Node.preorder, ¬g.Wanted fun name => (x.rule? name).isSome

variable {x : Expander}

theorem Free.append {ns ms : List Node} (hns : x.Free ns) (hms : x.Free ms) :
    x.Free (ns ++ ms) := by
  intro g hg
  rw [List.flatMap_append] at hg
  exact (List.mem_append.mp hg).elim (hns g) (hms g)

/-- A node with nothing inside it. -/
theorem free_singleton {n : Node} (hn : n.preorder = [n])
    (hunwanted : ¬n.Wanted fun name => (x.rule? name).isSome) : x.Free [n] := by
  intro g hg
  rw [List.flatMap_singleton, hn] at hg
  exact List.mem_singleton.mp hg ▸ hunwanted

theorem Free.plainAll {ns : List Node} (h : x.Free ns) : x.Free (Node.plainAll ns) := by
  intro g hg
  obtain ⟨m, hm, rfl⟩ := Node.exists_of_mem_preorder_plainAll hg
  rw [Node.wanted_plain]
  exact h m hm

/-- Whether an expander has the rules of another, and no expansion is going on, though one may. -/
structure Rests (x s : Expander) : Prop where
  rules : s.rules = x.rules
  idle : s.active = []
  room : 1 ≤ s.maxDepth

/-- What going over nodes comes to: the expander is at rest, nothing was reported of nesting, and no
    invocation is left. -/
structure Leaves (x s : Expander) (r : Expander × List Node) : Prop where
  rests : x.Rests r.1
  reports : ∃ rs, r.1.reports = s.reports ++ rs ∧ ∀ r ∈ rs, r.problem.ofNesting = false
  free : x.Free r.2

/-- At rest, only the arguments can speak against expanding an invocation. -/
theorem Rests.refusal_eq {s : Expander} (h : x.Rests s) (rule : Rule) (inv : Invocation) :
    s.refusal rule inv = rule.shape.violations inv := by
  have hactive : inv.name ∉ s.active := by simp [h.idle]
  have hroom : ¬s.maxDepth ≤ s.active.length := by
    have := h.room
    simp only [h.idle, List.length_nil]
    omega
  rw [refusal, if_neg hactive, if_neg hroom]

theorem Rests.leaves_self {s : Expander} (h : x.Rests s) {ns : List Node} (hns : x.Free ns) :
    x.Leaves s (s, ns) :=
  ⟨h, ⟨[], (List.append_nil _).symm, by simp⟩, hns⟩

/-- Handing over a group after going over what is inside it. -/
theorem Leaves.then {s : Expander} {r q : Expander × List Node} (hr : x.Leaves s r)
    (hq : x.Leaves r.1 q) : x.Leaves s q := by
  obtain ⟨rs, hrs, hfirst⟩ := hr.reports
  obtain ⟨qs, hqs, hsecond⟩ := hq.reports
  refine ⟨hq.rests, ⟨rs ++ qs, by rw [hqs, hrs, List.append_assoc], ?_⟩, hq.free⟩
  exact fun r hr => (List.mem_append.mp hr).elim (hfirst r) (hsecond r)

/-- Going over nodes, and then over others. -/
theorem Leaves.append {s : Expander} {r q : Expander × List Node} (hr : x.Leaves s r)
    (hq : x.Leaves r.1 q) : x.Leaves s (q.1, r.2 ++ q.2) := by
  obtain ⟨hrests, hreports, hfree⟩ := hr.then hq
  exact ⟨hrests, hreports, hr.free.append hfree⟩

/-- Nothing takes the place of a group that is reported. -/
theorem Rests.leaves_report {s : Expander} (h : x.Rests s) {rs : List Report}
    (hrs : ∀ r ∈ rs, r.problem.ofNesting = false) : x.Leaves s (s.report rs, []) :=
  ⟨⟨h.rules, h.idle, h.room⟩, ⟨rs, rfl, hrs⟩, by simp [Free]⟩

/-- Whether the templates bring no invocations of their own. -/
def BringsNone (x : Expander) : Prop :=
  ∀ t, .template t ∈ x.rules → t.BringsNone fun name => (x.rule? name).isSome

/-- **No invocations in an expansion**, if there are none in the arguments and the templates bring
    none of their own. -/
theorem BringsNone.free_expansion (h : x.BringsNone) {rule : Rule} (hrule : rule ∈ x.rules)
    {inv : Invocation} (hsupplied : x.Free inv.supplied) (number : Nat) :
    x.Free (Builder.build (rule.expand number inv).events) := by
  have hatom : ∀ a : Atom, x.Free (Builder.build (Node.atom a).events) := by
    intro a
    rw [Builder.build_of_replays (Event.replays_events _)]
    exact (free_singleton rfl (Node.not_wanted_atom a)).plainAll
  cases rule with
  | concat => exact hatom _
  | uniqueName => exact hatom _
  | template t =>
    have hreplays := Substitution.replays_events (t.transform inv)
    show x.Free (Builder.build (t.transform inv).events)
    rw [Builder.build_of_replays hreplays]
    have hfree : x.Free ((t.transform inv).nodesAll t.body) := (h t hrule).free hsupplied
    exact hfree.plainAll

/-! ### Going over nodes -/

/-- Whether `replay` leaves nodes without invocations as they are. -/
def SparesFree (x : Expander) (replay : List Node → Expander → Option (Expander × List Node)) :
    Prop :=
  ∀ ns s r, s.rules = x.rules → x.Free ns → replay ns s = some r → r = (s, ns)

/-- Rewriting does, whatever the number of levels. -/
theorem sparesFree_rewrite (x : Expander) (levels : Nat) :
    x.SparesFree (cutter.rewrite levels) := by
  intro ns s r hs hns hr
  rw [x.wants_rules.rewrite_of_unwanted (fun _ _ => rfl) levels hs hns] at hr
  exact (Option.some.inj hr).symm

variable {replay : List Node → Expander → Option (Expander × List Node)}

/-- **Handing over a group** that holds no invocations: what takes its place goes through as it
    is. -/
theorem Rests.replace_leaves {s : Expander} (hs : x.Rests s) (hx : x.BringsNone)
    (hreplay : x.SparesFree replay) {g : Node} {r : Expander × List Node} (hg : x.Free g.exprs)
    (hr : cutter.replace replay g s = some r) : x.Leaves s r := by
  rcases s.paste_layers (Builder.holding g) with hp | ⟨n, report, hread, hp⟩ |
    ⟨inv, rule, hread, hfound, hp | ⟨-, hp⟩⟩
  · rw [Cutter.replace_of_none hp, Option.some_inj] at hr
    subst hr
    exact hs.leaves_self (by simp [Free])
  · rw [Cutter.replace_of_none hp, Option.some_inj] at hr
    subst hr
    refine hs.leaves_report fun r hr => ?_
    obtain rfl := List.mem_singleton.mp hr
    refine Problem.ofNesting_of_category ?_
    rw [Invocation.category_ofNode hread]
    decide
  · rw [Cutter.replace_of_none hp, Option.some_inj, hs.refusal_eq] at hr
    subst hr
    exact hs.leaves_report (Shape.ofNesting_violations _ inv)
  · have hof : Invocation.ofNode g = .ok inv := Option.some.inj hread
    have hrule : rule ∈ x.rules := hs.rules ▸ List.mem_of_find?_eq_some hfound
    have hsupplied : x.Free inv.supplied := by
      intro m hm
      obtain ⟨n, hn, hm⟩ := List.mem_flatMap.mp hm
      exact hg m (List.mem_flatMap.mpr ⟨n, Invocation.mem_exprs_of_supplied hof hn, hm⟩)
    have hfree := hx.free_expansion hrule hsupplied (s.made + 1)
    rw [Cutter.replace_of_some hp, Option.map_eq_some_iff] at hr
    obtain ⟨q, hq, rfl⟩ := hr
    -- the expansion is left alone, and then the name of the rule is taken off again
    obtain rfl := hreplay _ (s.expanding rule inv) q hs.rules hfree hq
    refine ⟨⟨hs.rules, hs.idle, hs.room⟩,
      ⟨(rule.expand (s.made + 1) inv).reports, rfl, fun r hr => ?_⟩, hfree⟩
    obtain ⟨-, message, n, rfl⟩ := rule.reports_expand (s.made + 1) inv r hr
    rfl

mutual

theorem Rests.rewriteNode_leaves (hx : x.BringsNone) (hreplay : x.SparesFree replay) :
    ∀ (n : Node) (s : Expander) (r : Expander × List Node), x.Rests s →
      (∀ m ∈ n.preorder, ¬m.LedByWanted fun name => (x.rule? name).isSome) →
        cutter.rewriteNode replay n s = some r → x.Leaves s r
  | .atom a, s, r, hs, _, hr => by
    cases hr
    exact hs.leaves_self (free_singleton rfl (Node.not_wanted_atom a))
  | .comment c, s, r, hs, _, hr => by
    cases hr
    exact hs.leaves_self (free_singleton rfl (Node.not_wanted_comment c))
  | .group d cs l stop, s, r, hs, hled, hr => by
    rw [Node.preorder_group] at hled
    obtain ⟨q, hq, hr⟩ := Option.bind_eq_some_iff.mp hr
    have hask := (x.wants_rules.ask hs.rules (Node.group d cs l stop).headName?).2
    have hsame : (cutter.ask s (Node.group d cs l stop).headName?).1 = s := by
      cases (Node.group d cs l stop).headName? <;> rfl
    rw [hsame] at hq
    -- inside the group no expansion is going on yet
    have hinside := Rests.rewriteAll_leaves hx hreplay cs s q hs
      (fun m hm => hled m (List.mem_cons_of_mem _ hm)) hq
    split at hr
    case isTrue =>
      have hexprs : x.Free (Node.group d q.2 l stop).exprs := by
        intro g hg
        obtain ⟨n, hn, hg⟩ := List.mem_flatMap.mp hg
        exact hinside.free g (List.mem_flatMap.mpr ⟨n, List.mem_of_mem_filter hn, hg⟩)
      exact hinside.then (hinside.rests.replace_leaves hx hreplay hexprs hr)
    case isFalse hno =>
      cases hr
      refine ⟨hinside.rests, hinside.reports, fun g hg => ?_⟩
      rw [List.flatMap_singleton, Node.preorder_group] at hg
      obtain rfl | hg := List.mem_cons.mp hg
      · -- the head is what it was, and no name of a rule
        have hhead : (Node.group d q.2 l stop).headName? = (Node.group d cs l stop).headName? :=
          x.wants_rules.headName?_rewriteAll hs.rules hq (hled _ List.mem_cons_self)
        rw [Node.Wanted, hhead]
        exact mt hask.mpr hno
      · exact hinside.free g hg

/-- **From one rest to the next**: over nodes in which no group is led by an invocation, the
    expander comes to rest after each invocation, however deep it stands in others. -/
theorem Rests.rewriteAll_leaves (hx : x.BringsNone) (hreplay : x.SparesFree replay) :
    ∀ (ns : List Node) (s : Expander) (r : Expander × List Node), x.Rests s →
      (∀ m ∈ ns.flatMap Node.preorder, ¬m.LedByWanted fun name => (x.rule? name).isSome) →
        cutter.rewriteAll replay ns s = some r → x.Leaves s r
  | [], s, r, hs, _, hr => by
    cases hr
    exact hs.leaves_self (by simp [Free])
  | n :: ns, s, r, hs, hled, hr => by
    rw [List.flatMap_cons] at hled
    obtain ⟨q, hq, hr⟩ := Option.bind_eq_some_iff.mp hr
    obtain ⟨p, hp, rfl⟩ := Option.map_eq_some_iff.mp hr
    have hn := Rests.rewriteNode_leaves hx hreplay n s q hs
      (fun m hm => hled m (List.mem_append_left _ hm)) hq
    have hns := Rests.rewriteAll_leaves hx hreplay ns q.1 p hn.rests
      (fun m hm => hled m (List.mem_append_right _ hm)) hp
    exact hn.append hns

end

theorem Rests.rewrite_leaves {s : Expander} (hs : x.Rests s) (hx : x.BringsNone) (levels : Nat)
    {ns : List Node} {r : Expander × List Node}
    (hled : ∀ m ∈ ns.flatMap Node.preorder, ¬m.LedByWanted fun name => (x.rule? name).isSome)
    (hr : cutter.rewrite levels ns s = some r) : x.Leaves s r := by
  cases levels with
  | zero => exact Rests.rewriteAll_leaves hx (by simp [SparesFree]) ns s r hs hled hr
  | succ levels =>
    exact Rests.rewriteAll_leaves hx (x.sparesFree_rewrite levels) ns s r hs hled hr

/-- **Nesting in arguments is never recursion.** Let at least one expansion be allowed at a time,
    let the templates bring no invocations of their own, and let no group of some nodes be led by an
    invocation: this is so whenever no group is led by a group. Then nothing that is reported while
    the nodes are expanded is of recursion or of the depth, however deep invocations stand in the
    arguments of others, and no group that is left has the name of a rule for its head. -/
theorem expandNodes_nested {maxDepth : Nat} (hx : Usable maxDepth x) (hdepth : 1 ≤ maxDepth)
    (htemplates : x.BringsNone) {ns : List Node}
    (hled : ∀ m ∈ ns.flatMap Node.preorder, ¬m.LedByWanted fun name => (x.rule? name).isSome) :
    (∃ rs, (x.expandNodes ns).1.reports = x.reports ++ rs ∧
      ∀ r ∈ rs, (∀ name, r.problem ≠ .recursiveExpansion name) ∧
        ∀ limit, r.problem ≠ .expansionDepthExceeded limit) ∧
      x.Free (x.expandNodes ns).2 := by
  obtain ⟨hidle, hmax⟩ := hx.idle
  have hrests : x.Rests x := ⟨rfl, hidle, hmax ▸ hdepth⟩
  -- without locations the nodes have the same forms inside
  have hplain : ∀ m ∈ (Node.plainAll ns).flatMap Node.preorder,
      ¬m.LedByWanted fun name => (x.rule? name).isSome := by
    intro m hm
    obtain ⟨n, hn, rfl⟩ := Node.exists_of_mem_preorder_plainAll hm
    rw [Node.ledByWanted_plain]
    exact hled n hn
  -- expanding is the rewrite of the cutter at rest, which reports no nesting
  obtain ⟨y, calls, ms, hlogged, hexpand, -⟩ := (sound_of_idle hidle).exists_rewrite ns
  have hrewrite : cutter.rewrite x.rules.length (Node.plainAll ns) x = some (y, ms) := by
    rw [← Cutter.rewrite_logged cutter _ _ (x, []), hlogged]
    rfl
  obtain ⟨-, ⟨rs, hreports, hnesting⟩, hfree⟩ := hrests.rewrite_leaves htemplates _ hplain hrewrite
  rw [hexpand]
  refine ⟨⟨rs, hreports, fun r hr => ⟨fun name hname => ?_, fun limit hlimit => ?_⟩⟩, hfree⟩
  · have hno := hnesting r hr
    rw [hname] at hno
    cases hno
  · have hno := hnesting r hr
    rw [hlimit] at hno
    cases hno

open Template (word words)

/-- `(template wrap (@1 [@in (b d)]) (a @1 @in))` -/
def wrap : Template where
  name := "wrap"
  location := .nowhere
  body := [words [word "a", word "@1", word "@in"]]
  named := [("in", .value (words [word "b", word "d"]))]
  positional := [.required]

/-- Invocations of a template in the arguments of others of it, and of a built-in rule, where only
    one expansion is allowed at a time. -/
theorem expandNodes_nested_wrap :
    let x := ({ maxDepth := 1 } : Expander).registerAll (Rule.builtins ++ [.template wrap])
    let call := words [word "wrap", word "in:", words [word "concat", word "p", word "q"],
      words [word "wrap", words [word "wrap", word "e"]]]
    Usable 1 x ∧ 1 ≤ 1 ∧ x.BringsNone ∧
      (∀ m ∈ [call].flatMap Node.preorder, ¬m.LedByWanted fun name => (x.rule? name).isSome) ∧
      x.Free (x.expandNodes [call]).2 ∧
      (x.expandNodes [call]).2.map Node.text = ["(a (a (a e (b d)) (b d)) pq)"] := by
  intro x call
  have hx : Usable 1 x := Usable.new.registerAll _
  have htemplates : x.BringsNone := by
    intro t ht
    have hrules : x.rules = [.concat, .uniqueName, .template wrap] := rfl
    obtain rfl : t = wrap := by simpa [hrules] using ht
    -- the rule is what its definition is read as
    let definition := words [word "template", word "wrap",
      words [word "@1", words [word "@in", words [word "b", word "d"]]],
      words [word "a", word "@1", word "@in"]]
    exact ⟨⟨definition, [], rfl⟩, by decide +kernel, by decide +kernel⟩
  have hled : ∀ m ∈ [call].flatMap Node.preorder,
      ¬m.LedByWanted fun name => (x.rule? name).isSome := by decide +kernel
  exact ⟨hx, le_rfl, htemplates, hled, (expandNodes_nested hx le_rfl htemplates hled).2,
    by decide +kernel⟩

end Expander

end Formwork
