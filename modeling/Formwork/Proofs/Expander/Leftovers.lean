import Formwork.Pipeline
import Formwork.Proofs.Cutout.Leftovers
import Formwork.Proofs.Expander.Ends

namespace Formwork

/-!
# What expanding leaves

Every invocation is expanded, of the document and of the expansions that take the place of
invocations. A group that is led by an invocation is not read as one: its head is not known until
that invocation has been replaced, and only what is inside it is expanded. When this leaves the name
of a rule in front, the group stays, although it now looks like an invocation.

* `Expander.wants_rules` — an expander cuts out the invocations of its rules, whatever its state.
* `Expander.expandNodes_leaves` — what is left that looks like an invocation was led by one.
* `Expander.expandNodes_of_unwanted` — nodes without invocations are left as they are.
* `Options.expandSource_leaves` — what follows for whole documents.
-/

namespace Expander

/-! ### The rules stay the same -/

/-- Expanding changes no rule. -/
theorem keeps_rules (rules : List Rule) : cutter.Keeps fun x => x.rules = rules where
  cut _ _ h := h
  paste x b h := by
    obtain ⟨rs, hp⟩ | ⟨inv, r, -, -, hp⟩ := paste_cases x b
    · rw [hp]
      exact h
    · rw [hp]
      exact h
  pasted _ h := h

/-- An expander cuts out the invocations of its rules, whatever its state. -/
theorem wants_rules (x : Expander) :
    cutter.Wants (fun y => y.rules = x.rules) fun name => (x.rule? name).isSome where
  toKeeps := keeps_rules x.rules
  isSome_cut y head hy := by
    simp only [cutter, Option.isSome_map, rule?, hy]

/-! ### Expanding as a rewrite -/

/-- The nodes that take the place of invocations while nodes are expanded, in order. -/
def expansions (x : Expander) (ns : List Node) : List (List Node) :=
  ((cutter.logged.run x.rules.length (x, []) (Node.eventsAll ns)).map fun r =>
    Call.answers r.1.2).getD []

/-- What expanding comes to, if the rewrite ends. -/
theorem expandNodes_of_rewrite {x y : Expander} {ns ms : List Node}
    (h : cutter.rewrite x.rules.length (Node.plainAll ns) x = some (y, ms)) :
    x.expandNodes ns = (y, ms) := by
  have hreplays := Event.replays_plainAll ns
  have hrun := Cutter.run_of_replays cutter_onNodes x.rules.length x
    (Node.plainAll_plainAll ns) hreplays
  have hplain : Node.plainAll ms = ms :=
    Cutter.rewrite_plain cutter_onNodes _ _ _ _ (Node.plainAll_plainAll ns) h
  rw [expandNodes, expand, hrun, h]
  simp only [Option.map_some, Option.getD_some, Builder.build_eventsAll, hplain]

/-- Expanding is the rewrite, which ends, and its answers are the expansions. -/
theorem Sound.exists_rewrite {x : Expander} (hx : x.Sound) (ns : List Node) :
    ∃ y calls ms,
      cutter.logged.rewrite x.rules.length (Node.plainAll ns) (x, []) = some ((y, calls), ms) ∧
        x.expandNodes ns = (y, ms) ∧ x.expansions ns = Call.answers calls := by
  have hreplays := Event.replays_plainAll ns
  have hplain := Node.plainAll_plainAll ns
  obtain ⟨c, hc⟩ := hx.exists_feed (Node.eventsAll ns) (Nat.le_add_right _ _)
  have hrun := Cutter.run_of_replays cutter_onNodes x.rules.length x hplain hreplays
  rw [Cutter.run, hc, Option.map_some, eq_comm, Option.map_eq_some_iff] at hrun
  obtain ⟨⟨y, ms⟩, hrewrite, -⟩ := hrun
  -- taking notes changes neither the nodes nor the state, so the run with notes comes to the same
  have hlogged := Cutter.rewrite_logged cutter x.rules.length (Node.plainAll ns) (x, [])
  rw [hrewrite, Option.map_eq_some_iff] at hlogged
  obtain ⟨⟨⟨y', calls⟩, ms'⟩, hlog, heq⟩ := hlogged
  obtain ⟨rfl, rfl⟩ : y' = y ∧ ms' = ms := Prod.mk.inj heq
  refine ⟨y', calls, ms', hlog, expandNodes_of_rewrite hrewrite, ?_⟩
  have hrun' := Cutter.run_of_replays cutter_onNodes.logged x.rules.length (x, []) hplain hreplays
  rw [expansions, hrun', hlog]
  rfl

/-! ### What is left -/

/-- **What is left that looks like an invocation** was led by an invocation, in the nodes or in an
    expansion. -/
theorem expandNodes_leaves {x : Expander} (hx : x.Sound) {ns : List Node}
    (hns : Node.plainAll ns = ns) :
    Node.LeftOf (fun name => (x.rule? name).isSome) (ns ++ (x.expansions ns).flatten)
      (x.expandNodes ns).2 := by
  obtain ⟨y, calls, ms, hlog, hexpand, hexpansions⟩ := hx.exists_rewrite ns
  rw [hns] at hlog
  obtain ⟨-, calls', hcalls, hleft⟩ := x.wants_rules.rewrite_leaves _ ns (x, []) _ rfl hlog
  obtain rfl : calls = calls' := by simpa using hcalls
  rw [hexpand, hexpansions]
  exact hleft

/-- **Nodes without invocations** are left as they are, and so is the expander. -/
theorem expandNodes_of_unwanted {x : Expander} {ns : List Node} (hns : Node.plainAll ns = ns)
    (hfree : ∀ g ∈ ns.flatMap Node.preorder, ¬g.Wanted fun name => (x.rule? name).isSome) :
    x.expandNodes ns = (x, ns) := by
  apply expandNodes_of_rewrite
  rw [hns]
  exact x.wants_rules.rewrite_of_unwanted (fun _ _ => rfl) _ rfl hfree

/-- What an expansion leaves is written as it is built. -/
theorem plainAll_expandNodes {x : Expander} (hx : x.Sound) (ns : List Node) :
    Node.plainAll (x.expandNodes ns).2 = (x.expandNodes ns).2 := by
  obtain ⟨y, calls, ms, hlog, hexpand, -⟩ := hx.exists_rewrite ns
  rw [hexpand]
  exact Cutter.rewrite_plain cutter_onNodes.logged _ _ _ _ (Node.plainAll_plainAll ns) hlog

/-! ### Adding rules -/

/-- After a rule was added, its name and the names from before are those of rules. -/
theorem isSome_rule?_register (x : Expander) (r : Rule) (name : String) :
    ((x.register r).rule? name).isSome ↔ r.name = name ∨ (x.rule? name).isSome := by
  simp only [rule?, register, List.find?_isSome, List.mem_append, List.mem_filter,
    List.mem_singleton, decide_eq_true_eq]
  constructor
  · rintro ⟨r', ⟨hr', -⟩ | rfl, hname⟩
    · exact .inr ⟨r', hr', hname⟩
    · exact .inl hname
  · rintro (hname | ⟨r', hr', hname⟩)
    · exact ⟨r, .inr rfl, hname⟩
    · by_cases hsame : r'.name = r.name
      · exact ⟨r, .inr rfl, hsame ▸ hname⟩
      · exact ⟨r', .inl ⟨hr', hsame⟩, hname⟩

/-- A rule is found by its name if it is registered now, or was before. -/
theorem isSome_rule?_registerAll (rs : List Rule) (x : Expander) (name : String) :
    ((x.registerAll rs).rule? name).isSome ↔ name ∈ rs.map Rule.name ∨ (x.rule? name).isSome := by
  induction rs generalizing x with
  | nil => simp [registerAll]
  | cons r rs ih =>
    have hcons : x.registerAll (r :: rs) = (x.register r).registerAll rs := rfl
    rw [hcons, ih, isSome_rule?_register, List.map_cons, List.mem_cons, or_left_comm, eq_comm,
      or_assoc]

theorem Usable.registerAll {maxDepth : Nat} {x : Expander} (hx : Usable maxDepth x)
    (rs : List Rule) : Usable maxDepth (x.registerAll rs) := by
  induction rs generalizing x with
  | nil => exact hx
  | cons r rs ih => exact ih (hx.register r)

end Expander

/-! ### Whole documents -/

namespace Options

/-- The names of the rules for a document with some templates. -/
def ruleNames (o : Options) (templates : List Template) : List String :=
  (if o.builtinRules then ["concat", "unique-name"] else []) ++ templates.map Template.name

/-- The rules for a document are the built-in ones, if they are to be there, and its templates. -/
theorem isSome_rule?_expander (o : Options) (templates : List Template) (name : String) :
    ((o.expander templates).rule? name).isSome ↔ name ∈ o.ruleNames templates := by
  have hnames : ((if o.builtinRules then Rule.builtins else []) ++
      templates.map Rule.template).map Rule.name = o.ruleNames templates := by
    rw [ruleNames, List.map_append, List.map_map]
    cases o.builtinRules <;> rfl
  rw [expander, Expander.isSome_rule?_registerAll, hnames]
  simp [Expander.rule?]

/-- The expander of a document is sound, as nothing is going on in it yet. -/
theorem sound_expander (o : Options) (templates : List Template) :
    (o.expander templates).Sound :=
  Expander.sound_of_idle ((Expander.Usable.new.registerAll _).idle).1

/-- What is left of a text when it has been scanned, comments that are not to be kept have been
    taken out, and the template definitions have been collected. -/
def strippedSource (o : Options) (origin text : String) : Stripped :=
  stripTemplates
    (Builder.build (filterComments o.keepComments (Node.eventsAll (o.parse origin text).nodes)))

/-- The nodes that go through expanding: those of the document without its definitions, and those
    of every expansion that takes the place of an invocation. -/
def expandedSource (o : Options) (origin text : String) : List Node :=
  let stripped := o.strippedSource origin text
  let ns := Builder.build stripped.events
  ns ++ ((o.expander stripped.templates).expansions ns).flatten

/-- Definitions leave plain nodes. -/
theorem plainAll_build_stripTemplates (ns : List Node) :
    Node.plainAll (Builder.build (stripTemplates ns).events)
      = Builder.build (stripTemplates ns).events := by
  have hreplays := Event.replays_plainAll ns
  have hrun := Cutter.run_of_replays Stripper.cutter_onNodes 0 {} (Node.plainAll_plainAll ns)
    hreplays
  rw [stripTemplates, hrun]
  cases Stripper.cutter.rewrite 0 (Node.plainAll ns) {} with
  | none => rfl
  | some r => simp [Builder.build_eventsAll]

/-- **What expanding a text leaves.** A group that is left, at any depth, with the name of a rule
    for its head has the brackets of a group that was led by an invocation, in the document or in
    an expansion. If none was, no group that is left has the name of a rule for its head, and
    expanding with the same rules again changes nothing and reports nothing. -/
theorem expandSource_leaves (o : Options) (origin text : String) :
    let templates := (o.strippedSource origin text).templates
    let isRule := fun name => name ∈ o.ruleNames templates
    let left := (o.expandSource origin text).nodes
    Node.LeftOf isRule (o.expandedSource origin text) left ∧
      ((∀ m ∈ (o.expandedSource origin text).flatMap Node.preorder, ¬m.LedByWanted isRule) →
        (∀ g ∈ left.flatMap Node.preorder, ¬g.Wanted isRule) ∧
          ∀ x : Expander, x.rules = (o.expander templates).rules →
            x.expandNodes left = (x, left)) := by
  intro templates isRule left
  let ns := Builder.build (o.strippedSource origin text).events
  have hrules : (fun name => ((o.expander templates).rule? name).isSome = true) = isRule :=
    funext fun name => propext (o.isSome_rule?_expander templates name)
  have hplain : Node.plainAll ns = ns := plainAll_build_stripTemplates _
  have hleft : left = ((o.expander templates).expandNodes ns).2 := rfl
  have hleaves := Expander.expandNodes_leaves (o.sound_expander templates) hplain
  rw [hrules, ← hleft] at hleaves
  refine ⟨hleaves, fun hnone => ?_⟩
  -- a call is left over only where a call leads a group, and there is no such group
  have hfree : ∀ g ∈ left.flatMap Node.preorder, ¬g.Wanted isRule := by
    intro g hg hwanted
    obtain ⟨m, hm, hled, -⟩ := hleaves g hg hwanted
    exact hnone m hm hled
  refine ⟨hfree, fun x hx => ?_⟩
  have hsame : (fun name => (x.rule? name).isSome = true) = isRule := by
    rw [← hrules]
    simp only [Expander.rule?, hx]
  -- what is left is written as it was built, so expanding it again leaves it alone
  have hleftPlain : Node.plainAll left = left := by
    rw [hleft]
    exact Expander.plainAll_expandNodes (o.sound_expander templates) ns
  exact Expander.expandNodes_of_unwanted hleftPlain (hsame ▸ hfree)

/-- An expansion with an invocation in it, inside a group that is none: both are expanded, nothing is
    left that looks like an invocation, and expanding again changes nothing. -/
theorem expandSource_leaves_nested :
    let text := "(template t (@x) (concat @x b)) (f (t x: a))"
    let p := ({} : Options).expandSource "doc" text
    (∀ m ∈ (({} : Options).expandedSource "doc" text).flatMap Node.preorder,
      ¬m.LedByWanted fun name => name ∈ ({} : Options).ruleNames
        (({} : Options).strippedSource "doc" text).templates) ∧
      p.reports.length = 0 ∧ Node.headNames p.nodes = ["f"] ∧ Node.textAll p.nodes = "(f ab)" ∧
      ∀ x : Expander,
        x.rules = (({} : Options).expander
          (({} : Options).strippedSource "doc" text).templates).rules →
        x.expandNodes p.nodes = (x, p.nodes) := by
  intro text p
  have hnone : ∀ m ∈ (({} : Options).expandedSource "doc" text).flatMap Node.preorder,
      ¬m.LedByWanted fun name => name ∈ ({} : Options).ruleNames
        (({} : Options).strippedSource "doc" text).templates := by decide +kernel
  have hleft : p.reports.length = 0 ∧ Node.headNames p.nodes = ["f"] ∧
      Node.textAll p.nodes = "(f ab)" := by decide +kernel
  exact ⟨hnone, hleft.1, hleft.2.1, hleft.2.2, ((expandSource_leaves {} "doc" text).2 hnone).2⟩

/-- **A group that is led by an invocation may be left as one.** Nothing is reported, the name of a
    rule is the head of what is left, and expanding again would expand it. -/
theorem expandSource_led_by_invocation :
    let text := "(template t () concat) ((t) a b)"
    let p := ({} : Options).expandSource "doc" text
    p.reports.length = 0 ∧ Node.headNames p.nodes = ["concat"] ∧
      "concat" ∈ ({} : Options).ruleNames (({} : Options).strippedSource "doc" text).templates ∧
      Node.headNames ((({} : Options).expander
        (({} : Options).strippedSource "doc" text).templates).expandNodes p.nodes).2 = [] := by
  decide +kernel

end Options

end Formwork
