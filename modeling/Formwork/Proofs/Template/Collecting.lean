import Mathlib.Data.List.Nodup
import Formwork.Proofs.Template.Stripping

namespace Formwork

/-!
# What is collected of a document

The definitions of a document, wherever they stand, are read in the order in which they close. Of
the templates of a name the first one counts, and every later one is reported. The rest of the
document is left as it is.

* `Template.firsts` — the first template of each name.
* `Stripper.foldl_collect_eq` — collecting definitions keeps the first template of each name, and
  says of each definition what there is to say after those before it.
* `Node.DefinesApart` — all definitions are read without a report, as templates with names of their
  own; which is to say that nothing is reported (`stripTemplates_reports_eq_nil_iff`).
* `Node.strippedAll_plainAll`, `Node.definitionsAll_plainAll` — how atoms are quoted does not matter
  to which groups are definitions.
* `stripTemplates_collects` — what is collected of a document, and what is left of it.
-/

/-! ### The first of each name -/

namespace Template

/-- The first template of each name. -/
def firsts : List Template → List Template
  | [] => []
  | t :: ts => t :: (firsts ts).filter fun u => decide (u.name ≠ t.name)

/-- The first template of a name is kept. -/
theorem find?_firsts (ts : List Template) (name : String) :
    (firsts ts).find? (·.name = name) = ts.find? (·.name = name) := by
  induction ts with
  | nil => rfl
  | cons t ts ih =>
    rw [firsts, List.find?_cons, List.find?_cons]
    by_cases hname : t.name = name
    · simp only [hname, decide_true]
    · -- a template of that name is not left out for the name of the first
      have hkept : ∀ u : Template, (u.name ≠ t.name ∧ u.name = name) ↔ u.name = name :=
        fun u => and_iff_right_of_imp fun hu => hu ▸ Ne.symm hname
      simp only [hname, decide_false, ← ih, List.find?_filter, decide_eq_true_eq, hkept]

/-- No two of the first templates have the same name. -/
theorem nodup_firsts (ts : List Template) : ((firsts ts).map name).Nodup := by
  induction ts with
  | nil => exact .nil
  | cons t ts ih =>
    rw [firsts, List.map_cons, List.nodup_cons]
    refine ⟨fun hmem => ?_, ih.sublist (List.filter_sublist.map name)⟩
    obtain ⟨u, hu, hname⟩ := List.mem_map.mp hmem
    exact of_decide_eq_true (List.mem_filter.mp hu).2 hname

/-- Templates of which no two have the same name are all kept. -/
theorem firsts_of_nodup {ts : List Template} (h : (ts.map name).Nodup) : firsts ts = ts := by
  induction ts with
  | nil => rfl
  | cons t ts ih =>
    rw [List.map_cons, List.nodup_cons] at h
    rw [firsts, ih h.2, List.filter_eq_self.mpr]
    exact fun u hu => decide_eq_true fun hname => h.1 (hname ▸ List.mem_map_of_mem hu)

/-- A name is met among the first templates when it is met at all. -/
theorem any_firsts (ts : List Template) (name : String) :
    (firsts ts).any (·.name = name) = ts.any (·.name = name) := by
  rw [← List.isSome_find?, ← List.isSome_find?, find?_firsts]

/-- A template more is kept if it is the first one of its name. -/
theorem firsts_snoc (ts : List Template) (t : Template) :
    firsts (ts ++ [t]) = if ts.any (·.name = t.name) then firsts ts else firsts ts ++ [t] := by
  induction ts with
  | nil => rfl
  | cons u ts ih =>
    rw [List.cons_append, firsts, ih, List.any_cons, firsts]
    -- the new one is kept unless there is one of its name among the others or in front of them
    by_cases hany : ts.any (·.name = t.name) = true
    · rw [hany, Bool.or_true, if_pos rfl, if_pos rfl]
    · rw [Bool.not_eq_true] at hany
      rw [hany, Bool.or_false, if_neg Bool.false_ne_true, List.filter_append]
      by_cases hname : u.name = t.name
      · simp [hname]
      · simp [hname, Ne.symm hname]

/-- The template that a definition defines, if it is read. -/
def defined? (form : Node) : Option Template :=
  match define form with
  | .ok (t, _) => some t
  | .error _ => none

/-- Definitions that are read without a report define what they are read as. -/
theorem filterMap_defined?_of_forall₂ {forms : List Node} {ts : List Template}
    (h : List.Forall₂ (fun form t => define form = .ok (t, [])) forms ts) :
    forms.filterMap defined? = ts := by
  induction h with
  | nil => rfl
  | cons hform _ ih => simp [defined?, hform, ih]

end Template

/-! ### Collecting one definition after another -/

namespace Stripper

open Template (firsts defined?)

/-- What there is to report of a definition after others that define templates: what is wrong with it,
    or what its body names in vain, and that there was a template of its name. -/
def told (earlier : List Template) (form : Node) : List Report :=
  match Template.define form with
  | .error report => [report]
  | .ok (t, unbound) =>
    unbound ++
      if earlier.any (·.name = t.name) then [.atNode (.duplicateTemplate t.name) form] else []

/-- What there is to report of one definition after another. -/
def toldAll (earlier : List Template) : List Node → List Report
  | [] => []
  | form :: forms => told earlier form ++ toldAll (earlier ++ (defined? form).toList) forms

/-- Collecting a definition after others. -/
theorem collect_after (earlier : List Template) (form : Node) (reports : List Report) :
    collect { templates := firsts earlier, reports } form =
      { templates := firsts (earlier ++ (defined? form).toList)
        reports := reports ++ told earlier form } := by
  unfold collect told defined?
  cases Template.define form with
  | error report => simp
  | ok read =>
    obtain ⟨t, unbound⟩ := read
    simp only [Option.toList_some, Template.firsts_snoc, Template.any_firsts]
    split
    · simp
    · simp

/-- **Collecting one definition after another** keeps the first template of each name, and says of
    each what there is to say after those before it. -/
theorem foldl_collect_eq (earlier : List Template) (forms : List Node) (reports : List Report) :
    forms.foldl collect { templates := firsts earlier, reports } =
      { templates := firsts (earlier ++ forms.filterMap defined?)
        reports := reports ++ toldAll earlier forms } := by
  induction forms generalizing earlier reports with
  | nil => simp [toldAll]
  | cons form forms ih =>
    have hdefined : (form :: forms).filterMap defined? =
        (defined? form).toList ++ forms.filterMap defined? := by
      cases h : defined? form <;> simp [h]
    rw [List.foldl_cons, collect_after, ih, toldAll, hdefined, List.append_assoc, List.append_assoc]

/-- Nothing is told of a definition that is read without a report, as a template with another name
    than those before. -/
theorem told_eq_nil_iff {earlier : List Template} {form : Node} :
    told earlier form = [] ↔
      ∃ t, Template.define form = .ok (t, []) ∧ ∀ u ∈ earlier, u.name ≠ t.name := by
  unfold told
  cases Template.define form with
  | error report => simp
  | ok read =>
    obtain ⟨t, unbound⟩ := read
    simp

/-- **Nothing is told** of definitions when they are all read so, and their names differ. -/
theorem toldAll_eq_nil_iff {earlier : List Template} {forms : List Node} :
    toldAll earlier forms = [] ↔
      ∃ ts, List.Forall₂ (fun form t => Template.define form = .ok (t, [])) forms ts ∧
        (ts.map Template.name).Nodup ∧ ∀ t ∈ ts, ∀ u ∈ earlier, u.name ≠ t.name := by
  -- generalised over the templates read earlier, which every form adds to
  induction forms generalizing earlier with
  | nil => simp [toldAll]
  | cons form forms ih =>
    rw [toldAll, List.append_eq_nil_iff, told_eq_nil_iff, ih]
    constructor
    · rintro ⟨⟨t, hform, hfresh⟩, ts, hforms, hnames, hothers⟩
      rw [defined?, hform, Option.toList_some] at hothers
      refine ⟨t :: ts, .cons hform hforms, ?_, ?_⟩
      · rw [List.map_cons, List.nodup_cons]
        refine ⟨fun hmem => ?_, hnames⟩
        obtain ⟨u, hu, hname⟩ := List.mem_map.mp hmem
        exact hothers u hu t (by simp) hname.symm
      · rw [List.forall_mem_cons]
        exact ⟨hfresh, fun u hu v hv => hothers u hu v (List.mem_append_left _ hv)⟩
    · rintro ⟨_, hforms, hnames, hothers⟩
      obtain ⟨t, ts, hform, hrest, rfl⟩ := List.forall₂_cons_left_iff.mp hforms
      rw [List.map_cons, List.nodup_cons] at hnames
      rw [List.forall_mem_cons] at hothers
      refine ⟨⟨t, hform, hothers.1⟩, ts, hrest, hnames.2, fun u hu v hv => ?_⟩
      rw [defined?, hform, Option.toList_some, List.mem_append, List.mem_singleton] at hv
      obtain hv | rfl := hv
      · exact hothers.2 u hu v hv
      · exact fun hname => hnames.1 (hname ▸ List.mem_map_of_mem hu)

end Stripper

/-! ### Making nodes plain -/

namespace Node

mutual

/-- What is left of a plain node is what is left of the node, plain. -/
theorem stripped_plain : ∀ n : Node, n.plain.stripped = plainAll n.stripped
  | .atom _ => rfl
  | .comment _ => rfl
  | .group d cs l s => by
    have hdefinition := isDefinition_plain (.group d cs l s)
    rw [plain] at hdefinition ⊢
    rw [stripped, stripped, hdefinition, strippedAll_plainAll cs]
    split
    · rfl
    · rfl

theorem strippedAll_plainAll : ∀ ns : List Node,
    strippedAll (plainAll ns) = plainAll (strippedAll ns)
  | [] => rfl
  | n :: ns => by
    rw [plainAll, strippedAll, strippedAll, plainAll_append, stripped_plain n,
      strippedAll_plainAll ns]

end

mutual

/-- The definitions in a plain node are those in the node, plain. -/
theorem definitions_plain : ∀ n : Node, n.plain.definitions = plainAll n.definitions
  | .atom _ => rfl
  | .comment _ => rfl
  | .group d cs l s => by
    have hdefinition := isDefinition_plain (.group d cs l s)
    rw [plain] at hdefinition ⊢
    rw [definitions, definitions, hdefinition, definitionsAll_plainAll cs, strippedAll_plainAll,
      plainAll_append]
    split
    · rfl
    · rfl

theorem definitionsAll_plainAll : ∀ ns : List Node,
    definitionsAll (plainAll ns) = plainAll (definitionsAll ns)
  | [] => rfl
  | n :: ns => by
    rw [plainAll, definitionsAll, definitionsAll, plainAll_append, definitions_plain n,
      definitionsAll_plainAll ns]

end

end Node

/-! ### A document -/

/-- **Collecting templates** keeps the first one of each name. -/
theorem stripTemplates_eq_firsts (ns : List Node) :
    stripTemplates ns =
      { templates :=
          Template.firsts ((Node.definitionsAll (Node.plainAll ns)).filterMap Template.defined?)
        events := Node.eventsAll (Node.strippedAll (Node.plainAll ns))
        reports := Stripper.toldAll [] (Node.definitionsAll (Node.plainAll ns)) } := by
  have hcollect := Stripper.foldl_collect_eq [] (Node.definitionsAll (Node.plainAll ns)) []
  rw [stripTemplates_eq]
  exact congrArg (fun s : Stripper => Stripped.mk s.templates _ s.reports) hcollect

/-- Whether the definitions among and in nodes are all read without a report, as templates with
    names of their own. -/
def Node.DefinesApart (ns : List Node) : Prop :=
  ∃ ts, List.Forall₂ (fun form t => Template.define form = .ok (t, []))
    (definitionsAll (plainAll ns)) ts ∧ (ts.map Template.name).Nodup

/-- **Nothing is reported** exactly when the definitions are read without a report and their names
    differ. -/
theorem stripTemplates_reports_eq_nil_iff {ns : List Node} :
    (stripTemplates ns).reports = [] ↔ Node.DefinesApart ns := by
  rw [stripTemplates_eq_firsts, Stripper.toldAll_eq_nil_iff]
  simp [Node.DefinesApart]

/-- What is collected of the nodes of a document, and what is left of them. Definitions are rebuilt
    before they are read, with each atom quoted exactly when its value needs it. -/
structure Stripped.Collects (out : Stripped) (ns : List Node) : Prop where
  /-- The definitions are taken out wherever they stand, and all else is left as it is. -/
  events : out.events = Node.eventsAll (Node.strippedAll ns)
  /-- Of the templates that they define, in the order in which they close, the first one of each name
      is kept. -/
  templates : out.templates =
    Template.firsts ((Node.plainAll (Node.definitionsAll ns)).filterMap Template.defined?)
  /-- What is wrong with a definition is reported, and that there was a template of its name. -/
  reports : out.reports = Stripper.toldAll [] (Node.plainAll (Node.definitionsAll ns))
  /-- So no two templates have the same name. -/
  distinct : (out.templates.map Template.name).Nodup
  /-- If each atom is quoted exactly when its value needs it, definitions are rebuilt as they are. -/
  rebuilt : Node.plainAll ns = ns →
    Node.plainAll (Node.definitionsAll ns) = Node.definitionsAll ns

/-- **What is collected of a document:** of every list of nodes, the first template of each name, and
    the nodes without the definitions. -/
theorem stripTemplates_collects (ns : List Node) : (stripTemplates ns).Collects ns := by
  rw [stripTemplates_eq_firsts, Node.definitionsAll_plainAll, Node.strippedAll_plainAll,
    Node.eventsAll_plainAll]
  exact
    { events := rfl
      templates := rfl
      reports := rfl
      distinct := Template.nodup_firsts _
      rebuilt := fun hplain => by rw [← Node.definitionsAll_plainAll, hplain] }

/-- A group counts as what it is led by in the document, not as what leads it once the definitions in
    it are gone. -/
example (l : Location) :
    let led (ns : List Node) := Node.group .paren (ns ++ [.atom (.plain Template.keyword l)]) l l
    Node.strippedAll [led [led []]] = [led []] := rfl

end Formwork
