import Mathlib.Data.List.Find
import Mathlib.Data.List.Perm.Basic
import Formwork.Proofs.Expander.Leftovers
import Formwork.Proofs.Likeness.Nodes
import Formwork.Proofs.Template.Collecting

namespace Formwork

/-!
# Where definitions stand

Definitions that are read without a report, as templates with names of their own, may stand anywhere
among the other nodes of a document, in any order, after the invocations of what they define too.
What is left without them is the same, and so are the templates but for their order, which an
expander does not depend on as long as no two have the same name.

* `Node.definitionsAll_perm`, `Node.strippedAll_filter` — the definitions of a document and the rest
  of it, when its nodes come in another order.
* `Expander.Rearranged` — two expanders with the same rules under the same names;
  `Expander.Rearranged.expandNodes` — they expand alike.
* `Expander.expandDocument_placement` — collecting the templates and expanding the rest.
-/

/-! ### Nodes in another order -/

namespace Node

/-- The definitions of nodes in another order are their definitions in another order. -/
theorem definitionsAll_perm {ns ms : List Node} (h : ms.Perm ns) :
    (definitionsAll (plainAll ms)).Perm (definitionsAll (plainAll ns)) := by
  rw [definitionsAll_eq_flatMap, definitionsAll_eq_flatMap, plainAll_eq_map, plainAll_eq_map]
  exact (h.map plain).flatMap_right definitions

/-- What is left of nodes is left of those that are no definitions. -/
theorem strippedAll_filter (ns : List Node) :
    strippedAll (plainAll (ns.filter fun n => !n.isDefinition)) = strippedAll (plainAll ns) := by
  induction ns with
  | nil => rfl
  | cons n ns ih =>
    -- a definition is filtered out on the one side and leaves nothing on the other
    by_cases hn : n.isDefinition = true
    · have hnone : n.plain.stripped = [] :=
        stripped_of_isDefinition ((isDefinition_plain n).trans hn)
      rw [List.filter_cons_of_neg (by simp [hn]), ih, plainAll, strippedAll, hnone, List.nil_append]
    · rw [List.filter_cons_of_pos (by simp [hn]), plainAll, plainAll, strippedAll, strippedAll, ih]

end Node

/-- Collecting templates, when nothing is reported. -/
theorem stripTemplates_of_forall₂ {ns : List Node} {ts : List Template}
    (hforms : List.Forall₂ (fun form t => Template.define form = .ok (t, []))
      (Node.definitionsAll (Node.plainAll ns)) ts) (hnames : (ts.map Template.name).Nodup) :
    stripTemplates ns =
      { templates := ts, events := Node.eventsAll (Node.strippedAll (Node.plainAll ns))
        reports := [] } := by
  have hnone : Stripper.toldAll [] (Node.definitionsAll (Node.plainAll ns)) = [] :=
    Stripper.toldAll_eq_nil_iff.mpr ⟨ts, hforms, hnames, by simp⟩
  rw [stripTemplates_eq_firsts, Template.filterMap_defined?_of_forall₂ hforms,
    Template.firsts_of_nodup hnames, hnone]

/-! ### Rules in another order -/

/-- The likeness of nodes that do not differ. -/
def Likeness.exact : Likeness where
  place := Eq
  bracket := Eq
  problem := Eq
  comments := true

open Likeness (exact)

/-- Nodes are alike to themselves. -/
theorem Like.exact_refl (ns : List Node) : Like exact ns ns := by
  -- a list is alike to itself if its nodes are, and a group is if its children are
  have happend : ∀ ns : List Node, (∀ n ∈ ns, Like exact [n] [n]) → Like exact ns ns := by
    intro ns hns
    induction ns with
    | nil => exact .nil
    | cons n ns ih =>
      rw [List.forall_mem_cons] at hns
      exact hns.1.append (ih hns.2)
  have hone : ∀ n : Node, Like exact [n] [n] := by
    intro n
    induction n using Node.induct with
    | atom a => exact .atom rfl rfl rfl .nil
    | comment c => exact .comment rfl rfl rfl .nil
    | group d cs l s ih => exact .group rfl (happend cs ih) rfl rfl .nil
  exact happend ns fun n _ => hone n

theorem Like.eq_of_exact {ns ms : List Node} (h : Like exact ns ms) : ns = ms := by
  induction h with
  | nil => rfl
  | dropped hdrop => cases hdrop
  | @comment c c' ns ms _ htext hplace _ ih =>
    obtain ⟨text, location⟩ := c
    obtain rfl : text = c'.text := htext
    obtain rfl : location = c'.location := hplace
    rw [ih]
  | @atom a b ns ms hvalue hquoted hplace _ ih =>
    obtain ⟨value, quoted, location⟩ := a
    obtain rfl : value = b.value := hvalue
    obtain rfl : quoted = b.quoted := hquoted
    obtain rfl : location = b.location := hplace
    rw [ih]
  | group hdelim _ hplace hstop _ ihcs ih =>
    obtain rfl := hdelim
    obtain rfl := hplace
    obtain rfl := hstop
    rw [ihcs, ih]

namespace Expander

/-- Whether two expanders differ in their rules only, and have the same rule under each name. -/
structure Rearranged (x y : Expander) : Prop where
  rest : y = { x with rules := y.rules }
  rule? : ∀ name, y.rule? name = x.rule? name

namespace Rearranged

variable {x y : Expander}

theorem replace (h : x.Rearranged y) (n : Node) :
    (x.replace n).1.Rearranged (y.replace n).1 ∧ (y.replace n).2 = (x.replace n).2 := by
  -- rules in another order find the same rule, and nothing else of them is looked at
  obtain ⟨hrest, hrule⟩ := h
  generalize y.rules = rules at hrest
  subst hrest
  unfold Expander.replace
  split
  · exact ⟨⟨rfl, hrule⟩, rfl⟩
  · next inv _ =>
    rw [hrule]
    split
    · exact ⟨⟨rfl, hrule⟩, rfl⟩
    · next r _ =>
      have hrefusal : ({ x with rules } : Expander).refusal r inv = x.refusal r inv := rfl
      unfold invoke
      rw [hrefusal]
      split
      · exact ⟨⟨rfl, hrule⟩, rfl⟩
      · exact ⟨⟨rfl, hrule⟩, rfl⟩

/-- Rearranged expanders do the same with the same group. -/
theorem respects : cutter.Respects exact Rearranged where
  cut x y head h := by
    refine ⟨h, ?_⟩
    show ((y.rule? head).map _).isSome = ((x.rule? head).map _).isSome
    rw [h.rule?]
  paste x y g g' h hg := by
    -- likeness up to nothing is equality
    obtain rfl : g = g' := List.singleton_inj.mp hg.like.eq_of_exact
    obtain ⟨hstate, hanswer⟩ := h.replace g
    refine ⟨hstate, ?_⟩
    show Option.Rel _ (x.replace g).2 (y.replace g).2
    rw [hanswer]
    cases (x.replace g).2 with
    | none => exact .none
    | some es => exact .some (.exact_refl _)
  pasted x y h := by
    obtain ⟨hrest, hrule⟩ := h
    generalize y.rules = rules at hrest
    subst hrest
    exact ⟨rfl, hrule⟩

end Rearranged

/-- Expanding is the rewrite, and leaves everything out if the rewrite has no result. -/
theorem expandNodes_eq (x : Expander) (ns : List Node) :
    x.expandNodes ns = (cutter.rewrite x.rules.length (Node.plainAll ns) x).getD (x, []) := by
  cases h : cutter.rewrite x.rules.length (Node.plainAll ns) x with
  | some r => rw [expandNodes_of_rewrite h, Option.getD_some]
  | none =>
    have hrun := Cutter.run_eventsAll cutter_onNodes x.rules.length x ns
    rw [h, Option.map_none] at hrun
    rw [expandNodes, expand, hrun]
    rfl

/-- **Rearranged expanders expand alike**, if they have as many rules. -/
theorem Rearranged.expandNodes {x y : Expander} (h : x.Rearranged y)
    (hlength : y.rules.length = x.rules.length) (ns : List Node) :
    (x.expandNodes ns).1.Rearranged (y.expandNodes ns).1 ∧
      (y.expandNodes ns).2 = (x.expandNodes ns).2 := by
  have hrewrite := Rearranged.respects.rewrite x.rules.length (Node.plainAll ns)
    (Node.plainAll ns) x y h (.exact_refl _)
  rw [expandNodes_eq x, expandNodes_eq y, hlength]
  generalize cutter.rewrite x.rules.length (Node.plainAll ns) x = r at hrewrite ⊢
  generalize cutter.rewrite x.rules.length (Node.plainAll ns) y = q at hrewrite ⊢
  cases hrewrite with
  | none => exact ⟨h, rfl⟩
  | some hrq => exact ⟨hrq.1, hrq.2.eq_of_exact.symm⟩

/-! ### Adding templates -/

/-- Adding templates with names of their own puts them after the rules that had other names. -/
theorem registerAll_templates (x : Expander) {ts : List Template}
    (hnames : (ts.map Template.name).Nodup) :
    x.registerAll (ts.map .template) =
      { x with
        rules := x.rules.filter (fun r => r.name ∉ ts.map Template.name) ++
          ts.map .template } := by
  -- the induction is on the templates, in the order in which they are added
  induction ts generalizing x with
  | nil =>
    have hall : x.rules.filter (fun r => r.name ∉ ([] : List Template).map Template.name)
        = x.rules := List.filter_eq_self.mpr fun r _ => by simp
    rw [hall, List.map_nil, List.append_nil]
    rfl
  | cons t ts ih =>
    rw [List.map_cons, List.nodup_cons] at hnames
    have hstep : x.registerAll ((t :: ts).map .template)
        = (x.register (.template t)).registerAll (ts.map .template) := rfl
    -- the template that was added first keeps its place, as no other has its name
    have hfirst : [Rule.template t].filter (fun r => r.name ∉ ts.map Template.name)
        = [.template t] := by
      refine List.filter_eq_self.mpr fun r hr => ?_
      obtain rfl := List.mem_singleton.mp hr
      exact decide_eq_true hnames.1
    have hrest : (x.rules.filter (·.name ≠ t.name)).filter
          (fun r => r.name ∉ ts.map Template.name)
        = x.rules.filter (fun r => r.name ∉ (t :: ts).map Template.name) := by
      rw [List.filter_filter]
      refine List.filter_congr fun r _ => ?_
      rw [← Bool.decide_and, decide_eq_decide, List.map_cons, List.mem_cons, not_or]
      exact And.comm
    rw [hstep, ih _ hnames.2]
    show ({ x with rules := _ } : Expander) = { x with rules := _ }
    have hname : (Rule.template t).name = t.name := rfl
    simp only [register, hname, List.filter_append, hfirst, hrest, List.map_cons,
      List.append_assoc, List.singleton_append]

/-- **Templates in another order** make a rearranged expander, with as many rules. -/
theorem rearranged_registerAll (x : Expander) {ts us : List Template} (h : us.Perm ts)
    (hnames : (ts.map Template.name).Nodup) :
    (x.registerAll (ts.map .template)).Rearranged (x.registerAll (us.map .template)) ∧
      (x.registerAll (us.map .template)).rules.length
        = (x.registerAll (ts.map .template)).rules.length := by
  have hnames' : (us.map Template.name).Nodup := (h.map _).nodup_iff.mpr hnames
  -- the same rules make way for the templates
  have hkept : x.rules.filter (fun r => r.name ∉ us.map Template.name)
      = x.rules.filter (fun r => r.name ∉ ts.map Template.name) := by
    refine List.filter_congr fun r _ => ?_
    rw [decide_eq_decide, (h.map Template.name).mem_iff]
  rw [registerAll_templates x hnames, registerAll_templates x hnames', hkept]
  refine ⟨⟨rfl, fun name => ?_⟩, ?_⟩
  · -- no two templates have the name, so the order in which they are tried does not matter
    have hfound : (us.map Rule.template).find? (·.name = name)
        = (ts.map Rule.template).find? (·.name = name) := by
      refine List.find?_eq_find?_of_perm (h.map _) ?_
      rintro _ ⟨hr, hrname⟩ _ ⟨hq, hqname⟩
      obtain ⟨t, ht, rfl⟩ := List.mem_map.mp hr
      obtain ⟨u, hu, rfl⟩ := List.mem_map.mp hq
      have hsame : t.name = u.name :=
        (of_decide_eq_true hrname).trans (of_decide_eq_true hqname).symm
      rw [List.inj_on_of_nodup_map hnames' ht hu hsame]
    simp only [rule?, List.find?_append, hfound]
  · simp only [List.length_append, List.length_map, h.length_eq]

/-! ### Documents -/

/-- Collects the templates of a document, adds them to the rules and expands the rest. -/
def expandDocument (x : Expander) (ns : List Node) : Expander × List Node :=
  let stripped := stripTemplates ns
  (x.registerAll (stripped.templates.map .template)).expandNodes (Builder.build stripped.events)

/-- **Where definitions stand does not matter.** If the definitions of a document are read without a
    report, as templates with names of their own, and its nodes are put in another order that is the
    same for those that are no definitions, then collecting the templates and expanding the rest
    gives the same nodes, at the same locations, and the same reports, whatever rules there are
    besides. -/
theorem expandDocument_placement (x : Expander) {ns ms : List Node} (hdefs : Node.DefinesApart ns)
    (hperm : ms.Perm ns)
    (horder : ms.filter (fun n => !n.isDefinition) = ns.filter fun n => !n.isDefinition) :
    (x.expandDocument ms).2 = (x.expandDocument ns).2 ∧
      (stripTemplates ms).reports = (stripTemplates ns).reports ∧
      (x.expandDocument ms).1.reports = (x.expandDocument ns).1.reports := by
  obtain ⟨ts, hforms, hnames⟩ := hdefs
  -- the same definitions are read in another order, and the same nodes are left
  obtain ⟨us, hforms', hus⟩ := List.perm_comp_forall₂ (Node.definitionsAll_perm hperm) hforms
  have hnames' : (us.map Template.name).Nodup := (hus.map _).nodup_iff.mpr hnames
  have hleft : Node.strippedAll (Node.plainAll ms) = Node.strippedAll (Node.plainAll ns) := by
    rw [← Node.strippedAll_filter ms, horder, Node.strippedAll_filter ns]
  have hns := stripTemplates_of_forall₂ hforms hnames
  have hms := stripTemplates_of_forall₂ hforms' hnames'
  obtain ⟨hrearranged, hlength⟩ := x.rearranged_registerAll hus hnames
  obtain ⟨hexpander, hnodes⟩ := hrearranged.expandNodes hlength
    (Builder.build (Node.eventsAll (Node.strippedAll (Node.plainAll ns))))
  simp only [expandDocument, hns, hms, hleft]
  refine ⟨hnodes, trivial, ?_⟩
  rw [hexpander.rest]

/-- A template in the body of another, a template with the name of a built-in rule, and an invocation
    that stands before or after them. -/
theorem expandDocument_placement_nested :
    let x := ({} : Expander).registerAll Rule.builtins
    let outer := (parse { origin := "outer", limit := 8 }
      "(template wrap (@1) (template box (@x) [@x]) (box x: @1) (concat @1))").1
    let call := (parse { origin := "call", limit := 8 } "(wrap a)").1
    let shadow := (parse { origin := "shadow", limit := 8 } "(template concat (@1) (x @1))").1
    let ns := outer ++ (call ++ shadow)
    let ms := shadow ++ (call ++ outer)
    Node.DefinesApart ns ∧ ms.Perm ns ∧
      (ms.filter fun n => !n.isDefinition) = (ns.filter fun n => !n.isDefinition) ∧
      (x.expandDocument ms).2 = (x.expandDocument ns).2 ∧
      (x.expandDocument ns).2.map Node.text = ["[a]", "(x a)"] := by
  intro x outer call shadow ns ms
  have hdefs : Node.DefinesApart ns :=
    stripTemplates_reports_eq_nil_iff.mp (List.eq_nil_of_length_eq_zero (by decide +kernel))
  -- the outer template and the one that shadows change places around the call
  have hperm : ms.Perm ns := by
    have hlast : (shadow ++ (call ++ outer)).Perm ((call ++ outer) ++ shadow) :=
      List.perm_append_comm
    have hfirst : ((call ++ outer) ++ shadow).Perm ((outer ++ call) ++ shadow) :=
      List.perm_append_comm.append_right shadow
    rw [List.append_assoc outer] at hfirst
    exact hlast.trans hfirst
  have houter : (outer.filter fun n => !n.isDefinition) = [] :=
    List.eq_nil_of_length_eq_zero (by decide +kernel)
  have hshadow : (shadow.filter fun n => !n.isDefinition) = [] :=
    List.eq_nil_of_length_eq_zero (by decide +kernel)
  have horder : (ms.filter fun n => !n.isDefinition) = ns.filter fun n => !n.isDefinition := by
    simp only [ms, ns, List.filter_append, houter, hshadow, List.nil_append, List.append_nil]
  refine ⟨hdefs, hperm, horder, (x.expandDocument_placement hdefs hperm horder).1, ?_⟩
  decide +kernel

end Expander

end Formwork
