import Formwork.Proofs.Cutout.Appending
import Formwork.Proofs.Include.Dropped

namespace Formwork

/-!
# Forms on their own

What becomes of a form does not depend on the forms before it. A stage that has gone through some
nodes is in the state that it started from, but for what it has reported and asked for on the way,
and none of its calls looks at that.

* `Expander.expandNodes_append` — expanding two lists of nodes in a row, when no rule makes names.
* `Includer.process_append_iff` — replacing the include forms of two lists in a row.
* `forms_independent` — the two together.
-/

/-! ### Expanding -/

namespace Expander

/-- The expander when other reports were made before its own. -/
def after (x : Expander) (rs : List Report) : Expander := { x with reports := rs ++ x.reports }

theorem report_after (x : Expander) (rs qs : List Report) :
    (x.after rs).report qs = (x.report qs).after rs := by
  simp only [report, after, List.append_assoc]

/-- What an expander has reported so far has no part in what a call is replaced by. -/
theorem replace_after (x : Expander) (rs : List Report) (n : Node) :
    (x.after rs).replace n = ((x.replace n).1.after rs, (x.replace n).2) := by
  unfold replace
  split
  case h_1 report _ => rw [report_after]
  case h_2 inv _ =>
    have hrule : (x.after rs).rule? inv.name = x.rule? inv.name := rfl
    rw [hrule]
    split
    case h_1 => rfl
    case h_2 r _ =>
      have hrefusal : (x.after rs).refusal r inv = x.refusal r inv := rfl
      unfold invoke
      rw [hrefusal]
      split
      case h_1 => simp only [after, report, List.append_assoc]
      case h_2 => rw [report_after]

/-- An expander does the same whatever was reported before. -/
theorem commutes_after (rs : List Report) : cutter.Commutes (after · rs) where
  cut _ _ := rfl
  paste x b := by
    simp only [cutter]
    split
    · rfl
    · exact replace_after x rs _
  pasted _ := rfl

/-- Without a rule that makes names, all that is left of expanding is what was reported. -/
theorem settles_report :
    cutter.Settles fun x y => .uniqueName ∉ x.rules → ∃ rs, y = x.report rs where
  refl x _ := ⟨[], by simp only [report, List.append_nil]⟩
  trans x y z hxy hyz hx := by
    obtain ⟨rs, rfl⟩ := hxy hx
    obtain ⟨qs, rfl⟩ := hyz hx
    exact ⟨rs ++ qs, by simp only [report, List.append_assoc]⟩
  cut x _ _ := ⟨[], by simp only [cutter, report, List.append_nil]⟩
  refused x b hnone _ := by
    obtain ⟨rs, hp⟩ | ⟨_, _, _, _, hp⟩ := paste_cases x b
    · exact ⟨rs, by rw [hp]⟩
    · rw [hp] at hnone
      cases hnone
  answered x b y hsome h hx := by
    obtain ⟨_, hp⟩ | ⟨inv, r, hr, _, hp⟩ := paste_cases x b
    · rw [hp] at hsome
      cases hsome
    · rw [hp] at h
      obtain ⟨rs, rfl⟩ := h hx
      -- the rule is among those of the expander, so it makes no names
      have hmem : r ∈ x.rules := List.mem_of_find?_eq_some hr
      have hnames : r.names = 0 := by
        cases r with
        | uniqueName => exact absurd hmem hx
        | _ => rfl
      refine ⟨(r.expand (x.made + 1) inv).reports ++ rs, ?_⟩
      simp only [cutter, report, expanding, hnames, Nat.add_zero, List.tail_cons,
        List.append_assoc]

/-- What nodes expand to, and what is reported, does not depend on what was reported before. -/
theorem Sound.exists_rewrite_report {x : Expander} (hx : x.Sound) (hnames : .uniqueName ∉ x.rules)
    (ns : List Node) :
    ∃ qs ms, ∀ before, cutter.rewrite x.rules.length (Node.plainAll ns) { x with reports := before }
      = some ({ x with reports := before ++ qs }, ms) := by
  let fresh : Expander := { x with reports := [] }
  have hfresh : fresh.Sound := ⟨hx.nodup, hx.registered, hx.bounded⟩
  obtain ⟨y, calls, ms, hlog, -, -⟩ := hfresh.exists_rewrite ns
  have hrewrite := Cutter.rewrite_logged cutter x.rules.length (Node.plainAll ns) (fresh, [])
  rw [hlog, Option.map_some, eq_comm] at hrewrite
  obtain ⟨qs, rfl⟩ := settles_report.rewrite _ _ _ _ hrewrite hnames
  refine ⟨qs, ms, fun before => ?_⟩
  have hafter := (commutes_after before).rewrite x.rules.length (Node.plainAll ns) fresh
  rw [hrewrite] at hafter
  simpa only [fresh, after, report, Option.map_some, Cutter.unlog, List.append_nil,
    List.nil_append] using hafter

/-- **Expanding two lists in a row** is expanding each of them: the nodes and the reports of the one
    are followed by those of the other. -/
theorem expandNodes_append {x : Expander} (hx : x.Sound) (hnames : .uniqueName ∉ x.rules)
    (ns ms : List Node) :
    ∃ rs qs, (x.expandNodes ns).1 = x.report rs ∧ (x.expandNodes ms).1 = x.report qs ∧
      x.expandNodes (ns ++ ms)
        = (x.report (rs ++ qs), (x.expandNodes ns).2 ++ (x.expandNodes ms).2) := by
  obtain ⟨rs, ns', hns⟩ := hx.exists_rewrite_report hnames ns
  obtain ⟨qs, ms', hms⟩ := hx.exists_rewrite_report hnames ms
  have hboth : cutter.rewrite x.rules.length (Node.plainAll (ns ++ ms)) x
      = some (x.report (rs ++ qs), ns' ++ ms') := by
    rw [Node.plainAll_append, Cutter.rewrite_append, hns x.reports, Option.bind_some,
      hms (x.reports ++ rs)]
    simp only [Option.map_some, report, List.append_assoc]
  rw [expandNodes_of_rewrite (hns x.reports), expandNodes_of_rewrite (hms x.reports),
    expandNodes_of_rewrite hboth]
  exact ⟨rs, qs, rfl, rfl, rfl⟩

end Expander

/-! ### Including -/

namespace Includer

variable {docs : Documents} {s : Includer}

/-- The includer when it has reported and asked for more. -/
def adding (s : Includer) (rs : List Report) (asked : List String) : Includer :=
  { s with reports := s.reports ++ rs, consulted := asked ++ s.consulted }

/-- The includer when other reports and questions came before its own. -/
def after (s : Includer) (rs : List Report) (asked : List String) : Includer :=
  { s with reports := rs ++ s.reports, consulted := s.consulted ++ asked }

/-- All that is left of a run is what it has added. -/
theorem Later.exists_adding {s' : Includer} (h : s.Later s') :
    ∃ rs asked, s' = s.adding rs asked := by
  obtain ⟨root, limit, stack, consulted, reports⟩ := s'
  obtain ⟨rfl, rfl, rfl, ⟨rs, rfl⟩, ⟨asked, rfl⟩⟩ := h
  exact ⟨rs, asked, rfl⟩

theorem report_after (s : Includer) (rs qs : List Report) (asked : List String) :
    (s.after rs asked).report qs = (s.report qs).after rs asked := by
  simp only [report, after, List.append_assoc]

/-- What an includer has told so far has no part in what it includes. -/
theorem includeDocument_after (s : Includer) (rs : List Report) (asked : List String) (form : Node)
    (modulesOnly : Bool) :
    (s.after rs asked).includeDocument docs form modulesOnly
      = ((s.includeDocument docs form modulesOnly).1.after rs asked,
          (s.includeDocument docs form modulesOnly).2) := by
  have hactive : ∀ id, (s.after rs asked).isActive id = s.isActive id := fun _ => rfl
  have hfiltering : (s.after rs asked).filtering = s.filtering := rfl
  unfold includeDocument
  split
  case h_1 why _ =>
    exact congrArg (·, none)
      (report_after s rs [.atNode (.unresolvableInclude why.message) form] asked)
  case h_2 id _ =>
    simp only [hactive, hfiltering]
    split
    · split
      · rfl
      · rw [report_after]
    · split <;> simp only [report, after, spliced, List.append_assoc, List.cons_append]

/-- Nor in what a form is replaced by. -/
theorem replace_after (s : Includer) (rs : List Report) (asked : List String) (form : Node) :
    (s.after rs asked).replace docs form
      = ((s.replace docs form).1.after rs asked, (s.replace docs form).2) := by
  have hin : (s.after rs asked).inRoot = s.inRoot := rfl
  have hfiltering : (s.after rs asked).filtering = s.filtering := rfl
  unfold replace
  split
  · rfl
  · split
    · rw [hin]
      split <;> rfl
    · rw [hfiltering]
      exact includeDocument_after s rs asked form _

/-- An includer does the same whatever was reported and asked for before. -/
theorem commutes_after (docs : Documents) (rs : List Report) (asked : List String) :
    (cutter docs).Commutes (after · rs asked) where
  cut _ _ := rfl
  paste s b := by
    simp only [cutter]
    split
    · exact replace_after s rs asked _
    · rfl
  pasted _ := rfl

/-- What becomes of nodes, and what is reported and asked for, does not depend on what was reported
    and asked for before. -/
theorem rewrite_adding {levels : Nat} {ns ms : List Node} {t : Includer}
    (h : (cutter docs).rewrite levels ns s = some (t, ms)) :
    ∃ qs asked, t = s.adding qs asked ∧ ∀ rs before,
      (cutter docs).rewrite levels ns { s with reports := rs, consulted := before }
        = some ({ s with reports := rs ++ qs, consulted := asked ++ before }, ms) := by
  let fresh : Includer := { s with reports := [], consulted := [] }
  -- what was told before comes first, so the run is one of an includer that has told nothing
  have hmoved := (commutes_after docs s.reports s.consulted).rewrite levels ns fresh
  have hback : fresh.after s.reports s.consulted = s := by
    simp only [fresh, after, List.append_nil, List.nil_append]
  rw [hback, h, eq_comm, Option.map_eq_some_iff] at hmoved
  obtain ⟨⟨u, ks⟩, hfresh, heq⟩ := hmoved
  obtain ⟨rfl, rfl⟩ := Prod.mk.inj heq
  obtain ⟨qs, asked, rfl⟩ := ((settles_later docs).rewrite _ _ _ _ hfresh).exists_adding
  refine ⟨qs, asked, ?_, fun rs before => ?_⟩
  · simp only [fresh, after, adding, List.nil_append, List.append_nil]
  · have hafter := (commutes_after docs rs before).rewrite levels ns fresh
    rw [hfresh] at hafter
    simpa only [fresh, after, adding, Option.map_some, List.append_nil, List.nil_append]
      using hafter

/-- **Replacing the forms of two lists in a row** is replacing those of each. It ends exactly when
    both of them end, and the events, the reports and the documents asked for of the one are
    followed by those of the other. -/
theorem process_append_iff (docs : Documents) (s t : Includer) (ns ms : List Node)
    (es : List Event) :
    (∃ levels, process docs levels s (ns ++ ms) = some (t, es)) ↔
      ∃ rs asked es₁ qs asked' es₂,
        (∃ levels, process docs levels s ns = some (s.adding rs asked, es₁)) ∧
        (∃ levels, process docs levels s ms = some (s.adding qs asked', es₂)) ∧
        t = s.adding (rs ++ qs) (asked' ++ asked) ∧ es = es₁ ++ es₂ := by
  have hprocess : ∀ levels ns, process docs levels s ns
      = ((cutter docs).rewrite levels (Node.plainAll ns) s).map fun r =>
          (r.1, Node.eventsAll r.2) :=
    fun levels ns => Cutter.run_eventsAll (cutter_onNodes docs) levels s ns
  simp only [hprocess, Node.plainAll_append, Cutter.rewrite_append, Option.map_eq_some_iff,
    Option.bind_eq_some_iff, Prod.mk.injEq]
  constructor
  · rintro ⟨levels, _, ⟨⟨u, ns'⟩, hns, ⟨v, ms'⟩, hms, rfl⟩, rfl, rfl⟩
    obtain ⟨rs, asked, rfl, -⟩ := rewrite_adding hns
    obtain ⟨qs, asked', rfl, hsecond⟩ := rewrite_adding hms
    refine ⟨rs, asked, _, qs, asked', _, ⟨levels, _, hns, rfl, rfl⟩,
      ⟨levels, _, hsecond s.reports s.consulted, rfl, rfl⟩, ?_, ?_⟩
    · simp only [adding, List.append_assoc]
    · rw [Node.eventsAll_append]
  · rintro ⟨rs, asked, _, qs, asked', _, ⟨levels, ⟨u, ns'⟩, hns, rfl, rfl⟩,
      ⟨levels', ⟨v, ms'⟩, hms, hv, rfl⟩, rfl, rfl⟩
    -- as many levels as the two need
    have hns := Cutter.rewrite_mono (Nat.le_max_left levels levels') _ _ _ hns
    have hms := Cutter.rewrite_mono (Nat.le_max_right levels levels') _ _ _ hms
    obtain ⟨qs', asked'', rfl, hsecond⟩ := rewrite_adding hms
    simp only [adding, Includer.mk.injEq, true_and, List.append_cancel_right_eq,
      List.append_cancel_left_eq] at hv
    obtain ⟨rfl, rfl⟩ := hv
    refine ⟨max levels levels', _, ⟨_, hns, _, hsecond _ _, rfl⟩, ?_, ?_⟩
    · simp only [adding, List.append_assoc]
    · rw [Node.eventsAll_append]

end Includer

/-! ### Both -/

/-- **Forms are processed on their own.** An expander without a rule that makes names expands two
    lists of nodes in a row to what it expands each of them to, and reports what it reports about
    each of them. So does an includer, whose run over both lists ends exactly when those over each
    of them do. -/
theorem forms_independent {maxDepth : Nat} {x : Expander} (hx : Expander.Usable maxDepth x)
    (hnames : .uniqueName ∉ x.rules) (docs : Documents) (s : Includer) (ns ms : List Node) :
    (∃ rs qs, (x.expandNodes ns).1 = x.report rs ∧ (x.expandNodes ms).1 = x.report qs ∧
      x.expandNodes (ns ++ ms)
        = (x.report (rs ++ qs), (x.expandNodes ns).2 ++ (x.expandNodes ms).2)) ∧
    ∀ t es, (∃ levels, Includer.process docs levels s (ns ++ ms) = some (t, es)) ↔
      ∃ rs asked es₁ qs asked' es₂,
        (∃ levels, Includer.process docs levels s ns = some (s.adding rs asked, es₁)) ∧
        (∃ levels, Includer.process docs levels s ms = some (s.adding qs asked', es₂)) ∧
        t = s.adding (rs ++ qs) (asked' ++ asked) ∧ es = es₁ ++ es₂ :=
  ⟨Expander.expandNodes_append (Expander.sound_of_idle hx.idle.1) hnames ns ms,
    fun t es => Includer.process_append_iff docs s t ns ms es⟩

/-- A recursive invocation before one that is fine: the one is reported and comes to nothing, the
    other is expanded. -/
theorem forms_independent_twins :
    let x := Expander.twins.register .concat
    let good := Includer.round [Includer.word "concat", Includer.word "x", Includer.word "y"]
    Expander.Usable 2 x ∧ .uniqueName ∉ x.rules ∧
      (∃ rs qs, (x.expandNodes [Expander.callOf "a"]).1 = x.report rs ∧
        (x.expandNodes [good]).1 = x.report qs ∧
        x.expandNodes ([Expander.callOf "a"] ++ [good])
          = (x.report (rs ++ qs),
              (x.expandNodes [Expander.callOf "a"]).2 ++ (x.expandNodes [good]).2)) ∧
      (x.expandNodes ([Expander.callOf "a"] ++ [good])).1.reports.map Report.problem
        = [.recursiveExpansion "a"] ∧
      Node.textAll (x.expandNodes ([Expander.callOf "a"] ++ [good])).2 = "xy" := by
  intro x good
  have hx : Expander.Usable 2 x := .register (.register (.register .new _) _) _
  -- no rule of the three makes names, and the one of new names makes one
  have hnames : .uniqueName ∉ x.rules := by
    have hrules : x.rules.map Rule.names = [0, 0, 0] := by decide +kernel
    intro hmem
    have hone : Rule.names .uniqueName ∈ x.rules.map Rule.names := List.mem_map_of_mem hmem
    rw [hrules] at hone
    exact absurd hone (by decide)
  exact ⟨hx, hnames, (forms_independent hx hnames (.ofList []) {} _ _).1, by decide +kernel,
    by decide +kernel⟩

end Formwork
