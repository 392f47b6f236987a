import Formwork.Proofs.Likeness.Comments
import Formwork.Proofs.Likeness.Scanning

namespace Formwork

/-!
# Documents without forms

A document in which no group is headed by a word that a stage looks for goes through all stages as
it was scanned, with its comments taken out if they are not to be kept. This holds for what is made
of a malformed text as well.

* `Options.formHeads` — the words that the stages look for.
* `Options.expandNodes_untouched` — the stages after including.
* `Options.expandWithIncludes_untouched` — whole documents, with includes and without.
-/

variable {wanted : String → Prop}

/-! ### Nodes without comments -/

namespace Node

/-- Plain nodes are plain without their comments. -/
theorem plainAll_withComments (keep : Bool) {ns : List Node} (h : plainAll ns = ns) :
    plainAll (withComments keep ns) = withComments keep ns := by
  cases keep with
  | true => exact h
  | false =>
    have hlike := (like_uncommentedAll ns).plain
    rw [h] at hlike
    exact like_commentless_iff.mp hlike

/-- Taking comments out gives no group a new head. -/
theorem unwanted_withComments (keep : Bool) {ns : List Node}
    (h : ∀ g ∈ ns.flatMap preorder, ¬g.Wanted wanted) :
    ∀ g ∈ (withComments keep ns).flatMap preorder, ¬g.Wanted wanted := by
  cases keep with
  | true => exact h
  | false =>
    rintro g hg ⟨name, hname, hw⟩
    -- the group with the comments still in it has the same head
    obtain ⟨n, hn, htwin⟩ := (like_uncommentedAll ns).exists_twin_of_head hg hname
    exact h n hn ⟨name, htwin.headName?.symm.trans hname, hw⟩

end Node

/-! ### What the stages look for -/

/-- Definitions are cut out whatever was collected before. -/
theorem Stripper.wants_keyword : Stripper.cutter.Wants (fun _ => True) (· = Template.keyword) where
  cut _ _ _ := trivial
  paste _ _ _ := trivial
  pasted _ _ := trivial
  isSome_cut s head _ := by
    simp only [cutter]
    split <;> simp_all

/-- Include forms are cut out whatever is going through. -/
theorem Includer.wants_words (docs : Documents) :
    (cutter docs).Wants (fun _ => True) (· ∈ [includeWord, modulesWord, rootOnlyWord]) where
  cut _ _ _ := trivial
  paste _ _ _ := trivial
  pasted _ _ := trivial
  isSome_cut s head _ := by
    simp only [cutter]
    split <;> simp_all

namespace Options

/-- The heads of the forms that are looked for in a document that defines no template. -/
def formHeads (o : Options) : List String :=
  [Includer.includeWord, Includer.modulesWord, Includer.rootOnlyWord, Template.keyword] ++
    o.ruleNames []

/-- The built-in rules come with no reports. -/
theorem reports_expander (o : Options) : (o.expander []).reports = [] := by
  unfold expander
  cases o.builtinRules <;> rfl

/-! ### Whole documents -/

/-- **The stages after including** leave nodes without forms as they are, but for the comments. -/
theorem expandNodes_untouched (o : Options) {ns : List Node} (hplain : Node.plainAll ns = ns)
    (hfree : ∀ g ∈ ns.flatMap Node.preorder, ¬g.Wanted (· ∈ o.formHeads)) :
    o.expandNodes ns = (Node.withComments o.keepComments ns, []) := by
  have hleft := Node.unwanted_withComments o.keepComments hfree
  have hdefine : ∀ g ∈ (Node.withComments o.keepComments ns).flatMap Node.preorder,
      ¬g.Wanted (· = Template.keyword) := by
    rintro g hg ⟨name, hname, rfl⟩
    exact hleft g hg ⟨_, hname, by simp [formHeads]⟩
  have hinvoke : ∀ g ∈ (Node.withComments o.keepComments ns).flatMap Node.preorder,
      ¬g.Wanted fun name => ((o.expander []).rule? name).isSome := by
    rintro g hg ⟨name, hname, hrule⟩
    have hmem := (o.isSome_rule?_expander [] name).mp hrule
    exact hleft g hg ⟨name, hname, List.mem_append_right _ hmem⟩
  obtain ⟨s, ks, x, ms, hstrip, hexpand, hall⟩ := o.exists_rewrites ns
  -- neither of the two cutters takes anything out
  rw [Node.plainAll_withComments _ hplain, Stripper.wants_keyword.rewrite_of_unwanted
    (fun _ _ => rfl) 0 trivial hdefine] at hstrip
  obtain ⟨rfl, rfl⟩ := Prod.mk.inj (Option.some.inj hstrip)
  rw [(o.expander []).wants_rules.rewrite_of_unwanted (fun _ _ => rfl) _ rfl hinvoke] at hexpand
  obtain ⟨rfl, rfl⟩ := Prod.mk.inj (Option.some.inj hexpand)
  rw [hall, reports_expander, List.append_nil]

/-- **Documents without forms go through untouched.** If no group of a text, as it is scanned, is
    headed by a word that a stage looks for, then processing it with includes and processing it
    without both give what scanning gives, less the comments that are not to be kept: the nodes at
    their places and the reports. The includer is only asked about the heads of the groups. No group
    is handed over to it, so no document is looked up. -/
theorem expandWithIncludes_untouched (o : Options) (docs : Documents) (levels : Nat)
    (id text : String)
    (hfree : ∀ g ∈ (o.parse id text).nodes.flatMap Node.preorder, ¬g.Wanted (· ∈ o.formHeads)) :
    let parsed := o.parse id text
    let left : Processed :=
      { nodes := Node.withComments o.keepComments parsed.nodes, reports := parsed.reports }
    let start := Includer.opening id text o.maxNestingDepth
    o.expandWithIncludes docs levels id text = some left ∧
      o.expandSource id text = left ∧
      (Includer.cutter docs).logged.run levels (start, []) (Node.eventsAll parsed.nodes)
        = some ((start, (Node.headNames parsed.nodes).map .cut), Node.eventsAll parsed.nodes) := by
  intro parsed left start
  have hplain : Node.plainAll parsed.nodes = parsed.nodes := Builder.plainAll_build _
  have hexpand := o.expandNodes_untouched hplain hfree
  -- the three words of the includer are among those of the forms
  have hinclude : ∀ g ∈ parsed.nodes.flatMap Node.preorder,
      ¬g.Wanted (· ∈ [Includer.includeWord, Includer.modulesWord, Includer.rootOnlyWord]) := by
    rintro g hg ⟨name, hname, hword⟩
    refine hfree g hg ⟨name, hname, ?_⟩
    simp only [List.mem_cons, List.not_mem_nil, or_false] at hword
    rcases hword with rfl | rfl | rfl <;> simp [formHeads]
  have hwants := Includer.wants_words docs
  refine ⟨?_, ?_, ?_⟩
  · have hrewrite : (Includer.cutter docs).rewrite levels parsed.nodes start
        = some (start, parsed.nodes) :=
      hwants.rewrite_of_unwanted (fun _ _ => rfl) levels trivial hinclude
    have hnodes : (Formwork.parse { origin := id, limit := o.maxNestingDepth } text).1
        = parsed.nodes := rfl
    have hsource : includeSource docs levels id text o.maxNestingDepth
        = some { nodes := parsed.nodes, reports := parsed.reports, consulted := [] } := by
      rw [includeSource_eq_rewrite, hnodes, hplain, hrewrite]
      rfl
    rw [expandWithIncludes, hsource, Option.map_some]
    simp only [hexpand, List.append_nil, left]
  · show ({ nodes := (o.expandNodes parsed.nodes).1,
            reports := parsed.reports ++ (o.expandNodes parsed.nodes).2 } : Processed) = left
    rw [hexpand, List.append_nil]
  · have hlogged : (Includer.cutter docs).logged.rewrite levels parsed.nodes (start, [])
        = some ((start, (Node.headNames parsed.nodes).map .cut), parsed.nodes) :=
      hwants.rewrite_logged_of_unwanted (fun _ _ => rfl) levels trivial hinclude
    rw [Cutter.run_eventsAll (Includer.cutter_onNodes docs).logged, hplain, hlogged]
    rfl

/-- A malformed text, a word of a rule that is not there and a comment that is not to be kept: the
    two groups are closed where the text ends, and the one report is that of the scan. -/
theorem expandWithIncludes_untouched_unclosed :
    let o : Options := { keepComments := false, builtinRules := false }
    let text := "(concat ; note\n [b] (c"
    (∀ g ∈ (o.parse "doc" text).nodes.flatMap Node.preorder, ¬g.Wanted (· ∈ o.formHeads)) ∧
      o.expandWithIncludes (.ofList []) 0 "doc" text = some (o.expandSource "doc" text) ∧
      Node.textAll (o.expandSource "doc" text).nodes = "(concat [b] (c))" ∧
      (o.expandSource "doc" text).reports.map Report.problem = [.unclosedGroups 2] := by
  intro o text
  have hfree : ∀ g ∈ (o.parse "doc" text).nodes.flatMap Node.preorder,
      ¬g.Wanted (· ∈ o.formHeads) := by decide +kernel
  obtain ⟨hwith, halone, -⟩ := expandWithIncludes_untouched o (.ofList []) 0 "doc" text hfree
  exact ⟨hfree, by rw [hwith, halone], by decide +kernel, by decide +kernel⟩

end Options

end Formwork
