import Formwork.Pipeline
import Formwork.Proofs.Cutout.Closing
import Formwork.Proofs.Invocation
import Formwork.Proofs.Pipeline.Independent

namespace Formwork

/-!
# Reported invocations

A complete group is handed over, and something is reported: it cannot be read as an invocation, its
rule may not be expanded or its arguments do not fit, or the rule reports while it expands.

* `Expander.paste_reported` — in the first two cases nothing takes the place of the group. Only the
  built-in rules report while they expand; they leave out what they cannot use, and make their atom
  all the same.
* `Expander.advance_reported` — what this means for the run: where nothing takes the place of the
  group, nothing is passed on, and what follows goes through as if the group had not been there.
* `Expander.expandSource_unjoinable` — a part that cannot be joined is reported, and the atom is
  made of the other parts.
-/

/-! ### Who reports what -/

namespace Invocation

/-- What is wrong with the shape of an invocation is a problem of invocations. -/
theorem category_ofNode {n : Node} {r : Report} (h : ofNode n = .error r) :
    r.problem.category = .invocation := by
  cases (ofNode_follows n).reports r h with
  | notAList | empty | headNotAtom => rfl
  | argument _ hfault =>
    cases hfault with
    | noValue | repeated | late => rfl

end Invocation

/-- What can be wrong with the arguments of an invocation. -/
theorem Shape.problem_violations (s : Shape) (inv : Invocation) : ∀ r ∈ s.violations inv,
    (∃ key, r.problem = .missingArgument inv.name key) ∨
      (∃ key, r.problem = .unexpectedArgument inv.name key) ∨
      (∃ min found, r.problem = .tooFewArguments inv.name min found) ∨
      ∃ max found, r.problem = .tooManyArguments inv.name max found := by
  intro r hr
  simp only [violations, List.mem_append] at hr
  -- the four kinds of violation, in the order they are reported
  rcases hr with ((hr | hr) | hr) | hr
  · obtain ⟨key, -, rfl⟩ := List.mem_map.mp hr
    exact .inl ⟨key, rfl⟩
  · obtain ⟨argument, -, rfl⟩ := List.mem_map.mp hr
    exact .inr (.inl ⟨argument.1, rfl⟩)
  · unfold tooFew at hr
    split at hr
    · obtain rfl := List.mem_singleton.mp hr
      exact .inr (.inr (.inl ⟨_, _, rfl⟩))
    · cases hr
  · unfold tooMany at hr
    split at hr
    · cases hr
    · obtain ⟨n, -, rfl⟩ := Option.map_eq_some_iff.mp (Option.mem_toList.mp hr)
      exact .inr (.inr (.inr ⟨_, _, rfl⟩))

/-- What is wrong with the arguments of an invocation is a problem of expanding. -/
theorem Shape.category_violations (s : Shape) (inv : Invocation) :
    ∀ r ∈ s.violations inv, r.problem.category = .expansion := by
  intro r hr
  rcases s.problem_violations inv r hr with ⟨_, h⟩ | ⟨_, h⟩ | ⟨_, _, h⟩ | ⟨_, _, h⟩ <;>
    rw [h] <;> rfl

namespace Rule

/-- Only the built-in rules report while they expand: arguments that they cannot use. -/
theorem reports_expand (number : Nat) (inv : Invocation) (rule : Rule) :
    ∀ r ∈ (rule.expand number inv).reports,
      (rule = .concat ∨ rule = .uniqueName) ∧
        ∃ message n, r = .atNode (.macroArgument rule.name message) n := by
  intro r hr
  -- the built-in rules report arguments of the wrong kind, and a template reports nothing
  cases rule with
  | concat =>
    refine ⟨.inl rfl, ?_⟩
    rcases List.mem_append.mp hr with hr | hr
    · obtain ⟨n, -, rfl⟩ := List.mem_map.mp hr
      exact ⟨_, n, rfl⟩
    · have hr : r ∈ (Concat.separator inv).2 := hr
      unfold Concat.separator at hr
      split at hr
      · cases hr
      · cases hr
      · exact ⟨_, _, List.mem_singleton.mp hr⟩
  | uniqueName =>
    refine ⟨.inr rfl, ?_⟩
    have hr : r ∈ (UniqueName.stem inv).2 := hr
    unfold UniqueName.stem at hr
    split at hr
    · cases hr
    · cases hr
    · exact ⟨_, _, List.mem_singleton.mp hr⟩
  | template t => cases hr

/-- A built-in rule expands to a single atom where the invocation stands. -/
theorem events_expand_builtin {rule : Rule} (h : rule = .concat ∨ rule = .uniqueName)
    (number : Nat) (inv : Invocation) :
    ∃ value, (rule.expand number inv).events = [.locate inv.node.location, .atom value] := by
  rcases h with rfl | rfl
  · exact ⟨_, rfl⟩
  · exact ⟨_, rfl⟩

end Rule

/-! ### Handing over a group -/

namespace Expander

/-- What speaks against expanding an invocation is a problem of expanding. -/
theorem category_refusal (x : Expander) (rule : Rule) (inv : Invocation) :
    ∀ r ∈ x.refusal rule inv, r.problem.category = .expansion := by
  intro r hr
  unfold refusal at hr
  -- recursion is looked at before the depth, and the depth before the arguments
  split at hr
  · obtain rfl := List.mem_singleton.mp hr
    rfl
  · split at hr
    · obtain rfl := List.mem_singleton.mp hr
      rfl
    · exact Shape.category_violations _ _ r hr

/-- The group in a buffer is an invocation that a built-in rule expands, though not without
    reports. -/
structure Mended (x : Expander) (b : Builder) (rule : Rule) (inv : Invocation) : Prop where
  read : b.node?.map Invocation.ofNode = some (.ok inv)
  found : x.rule? inv.name = some rule
  accepted : x.refusal rule inv = []
  builtin : rule = .concat ∨ rule = .uniqueName

/-- **Handing over a group that is reported.** All that is reported are problems of invocations and
    of expanding. Either there is no answer, and all that changes are the reports; or a built-in
    rule has accepted the invocation, found arguments that it cannot use, and answers. -/
theorem paste_reported {x : Expander} {b : Builder} {rs : List Report}
    (h : (cutter.paste x b).1.reports = x.reports ++ rs) (hrs : rs ≠ []) :
    (∀ r ∈ rs, r.problem.category = .invocation ∨ r.problem.category = .expansion) ∧
      (cutter.paste x b = (x.report rs, none) ∨
        ∃ inv rule, x.Mended b rule inv ∧
          (∀ r ∈ rs, ∃ message n, r = .atNode (.macroArgument rule.name message) n) ∧
          rs = (rule.expand (x.made + 1) inv).reports ∧
          cutter.paste x b
            = (x.expanding rule inv, some (rule.expand (x.made + 1) inv).events)) := by
  rcases x.paste_layers b with hp | ⟨n, report, hread, hp⟩ |
    ⟨inv, rule, hread, hfound, hp | ⟨haccepted, hp⟩⟩
  · -- nothing is reported of what is no invocation of a rule
    rw [hp] at h
    exact absurd (List.append_right_eq_self.mp h.symm) hrs
  · obtain rfl : [report] = rs := by
      rw [hp] at h
      exact List.append_cancel_left h
    refine ⟨?_, .inl hp⟩
    intro r hr
    obtain rfl := List.mem_singleton.mp hr
    exact .inl (Invocation.category_ofNode hread)
  · obtain rfl : x.refusal rule inv = rs := by
      rw [hp] at h
      exact List.append_cancel_left h
    exact ⟨fun r hr => .inr (category_refusal x rule inv r hr), .inl hp⟩
  · obtain rfl : (rule.expand (x.made + 1) inv).reports = rs := by
      rw [hp] at h
      exact List.append_cancel_left h
    have hargument := rule.reports_expand (x.made + 1) inv
    obtain ⟨first, hfirst⟩ := List.exists_mem_of_ne_nil _ hrs
    have hmended : x.Mended b rule inv := ⟨hread, hfound, haccepted, (hargument first hfirst).1⟩
    refine ⟨?_, .inr ⟨inv, rule, hmended, ?_, rfl, hp⟩⟩
    · intro r hr
      obtain ⟨-, message, n, rfl⟩ := hargument r hr
      exact .inr rfl
    · intro r hr
      exact (hargument r hr).2

/-! ### Going on -/

open Cutout (mapState)

/-- The expander as if nothing had been reported. -/
def unreported (x : Expander) : Expander := { x with reports := [] }

/-- What was reported makes no difference to what follows, but for the reports. -/
theorem feed_report (levels : Nat) (c : Cutout Expander Builder) (rs : List Report)
    (es : List Event) :
    (Cutout.feed cutter levels (c.mapState (report · rs)) es).map (mapState unreported)
      = (Cutout.feed cutter levels c es).map (mapState unreported) := by
  -- the run with some reports is the run with none, with these put before its own
  have hbefore : ∀ qs : List Report,
      (Cutout.feed cutter levels ((c.mapState unreported).mapState (after · qs)) es).map
          (mapState unreported)
        = (Cutout.feed cutter levels (c.mapState unreported) es).map (mapState unreported) := by
    intro qs
    rw [(commutes_after qs).feed levels, Option.map_map]
    rfl
  have hwithout : (c.mapState unreported).mapState (after · c.state.reports) = c := by
    simp only [mapState, unreported, after, List.append_nil]
  have hwith : (c.mapState unreported).mapState (after · (c.state.reports ++ rs))
      = c.mapState (report · rs) := by
    simp only [mapState, unreported, after, report, List.append_nil]
  have hc := hbefore c.state.reports
  have hrs := hbefore (c.state.reports ++ rs)
  rw [hwithout] at hc
  rw [hwith] at hrs
  rw [hrs, hc]

end Expander

/-! ### The run -/

namespace Expander

open Cutout (through)

/-- **What takes the place of a reported group.** A group closes and is handed over, and something
    is reported, all of it problems of invocations and of expanding. Either nothing is passed on in
    the place of the group, here or to a group around it, and the reports are all that changes, so
    that what follows goes through as if the group had not been there. Or a built-in rule has
    accepted the invocation and reports arguments that it cannot use; then a single atom takes the
    place of the group. The active names are the same as before either way. -/
theorem advance_reported {c : Cutout Expander Builder} {d : Delim} {f : Frame Builder}
    {fs : List (Frame Builder)} (hframes : (c.closed d).frames = f :: fs) (hdepth : f.depth ≤ 1)
    {rs : List Report}
    (hreports : (cutter.paste c.state f.buffer).1.reports = c.state.reports ++ rs) (hrs : rs ≠ [])
    (levels : Nat) :
    (∀ r ∈ rs, r.problem.category = .invocation ∨ r.problem.category = .expansion) ∧
      ((c.advance cutter (through cutter (levels + 1)) (.closing d)
          = some { c.closed d with state := c.state.report rs, frames := fs } ∧
        ∀ es, (Cutout.feed cutter levels
            { c.closed d with state := c.state.report rs, frames := fs } es).map
              (Cutout.mapState unreported)
          = (Cutout.feed cutter levels { c.closed d with frames := fs } es).map
              (Cutout.mapState unreported)) ∨
      ∃ inv rule value, c.state.Mended f.buffer rule inv ∧
        (∀ r ∈ rs, ∃ message n, r = .atNode (.macroArgument rule.name message) n) ∧
        (rule.expand (c.state.made + 1) inv).events
          = [.locate inv.node.location, .atom value] ∧
        c.advance cutter (through cutter (levels + 1)) (.closing d)
          = some (({ c.closed d with
              state := { c.state.report rs with made := c.state.made + rule.names }
              frames := fs
              here := inv.node.location }).send inv.node.location (.atom value))) := by
  have hreceive := Cutout.receive_closed cutter hframes hdepth
  obtain ⟨hcategory, hp | ⟨inv, rule, hmended, hargument, hall, hp⟩⟩ :=
    paste_reported hreports hrs
  · refine ⟨hcategory, .inl ⟨?_, ?_⟩⟩
    · rw [hp] at hreceive
      rw [Cutout.advance, hreceive]
    · intro es
      have hfollowing := feed_report levels { c.closed d with frames := fs } rs es
      rw [← hfollowing]
      simp only [Cutout.mapState, Cutout.state_closed]
  · obtain ⟨value, hvalue⟩ := Rule.events_expand_builtin hmended.builtin (c.state.made + 1) inv
    refine ⟨hcategory, .inr ⟨inv, rule, value, hmended, hargument, hvalue, ?_⟩⟩
    rw [hp, hvalue] at hreceive
    rw [Cutout.advance, hreceive]
    -- the atom goes through where nothing waits, and the name of the rule is taken off
    let opened : Cutout Expander Builder :=
      { c.closed d with state := c.state.expanding rule inv, frames := fs }
    have hpending : opened.pending = none := Cutout.pending_closed c d
    have hatom : { opened with here := inv.node.location }.receive cutter (.atom value)
        = ({ opened with here := inv.node.location }.send inv.node.location (.atom value),
            none) := by
      simp only [Cutout.receive, hpending]
    have hthrough : through cutter (levels + 1) opened [.locate inv.node.location, .atom value]
        = some ({ opened with here := inv.node.location }.send inv.node.location
            (.atom value)) := by
      rw [through, Cutout.feed_cons_of_none _ rfl, Cutout.feed_cons_of_none _ hatom,
        Cutout.feed_nil]
    show (through cutter (levels + 1) opened _).map _ = _
    rw [hthrough, Option.map_some, hall]
    simp only [Cutout.send_eq_pass]
    cases fs <;> rfl

/-- An invocation of `concat`, and the cutout that is collecting it and waits for its last
    bracket. -/
def joining (parts : List Node) : Cutout Expander Builder :=
  let group : Node := .group .paren (.atom (Atom.plain "concat" .nowhere) :: parts) .nowhere .nowhere
  { state := ({} : Expander).registerAll Rule.builtins
    frames := [{ buffer := Sink.feed .empty group.events.dropLast, depth := 1 }] }

/-- A part that is no atom is reported, and the other one takes the place of the group. -/
theorem advance_reported_unjoinable :
    let c := joining [.atom (Atom.plain "a" .nowhere), .group .paren [] .nowhere .nowhere]
    ∃ f rs, (c.closed .paren).frames = [f] ∧ f.depth ≤ 1 ∧ rs ≠ [] ∧
      (cutter.paste c.state f.buffer).1.reports = c.state.reports ++ rs ∧
      rs.map (·.problem) = [.macroArgument "concat" "only atoms can be joined"] ∧
      ∃ inv rule, c.state.Mended f.buffer rule inv ∧
        (c.advance cutter (through cutter 1) (.closing .paren)).map Cutout.sent
          = some [.atom "a", .locate .nowhere] := by
  intro c
  obtain ⟨f, hframes⟩ : ∃ f, (c.closed .paren).frames = [f] := ⟨_, rfl⟩
  have hdepth : f.depth ≤ 1 := by
    cases hframes
    decide
  let rs := (cutter.paste c.state f.buffer).1.reports
  have hproblems : rs.map (·.problem) = [.macroArgument "concat" "only atoms can be joined"] := by
    cases hframes
    decide +kernel
  have hrs : rs ≠ [] := by
    intro hnil
    rw [hnil] at hproblems
    cases hproblems
  have hsent : (c.advance cutter (through cutter 1) (.closing .paren)).map Cutout.sent
      = some [.atom "a", .locate .nowhere] := by decide +kernel
  have hreports : (cutter.paste c.state f.buffer).1.reports = c.state.reports ++ rs := rfl
  obtain ⟨-, ⟨hnone, -⟩ | ⟨inv, rule, value, hmended, -, -, -⟩⟩ :=
    advance_reported hframes hdepth hreports hrs 0
  · -- something was passed on, so the group was not dropped
    have hclosed : (c.closed .paren).sent = [] := rfl
    rw [hnone, Option.map_some, hclosed] at hsent
    cases hsent
  · exact ⟨f, rs, hframes, hdepth, hrs, hreports, hproblems, inv, rule, hmended, hsent⟩

/-- **A reported invocation may leave an atom.** The part that is no atom is reported, and what the
    document comes to is not empty. -/
theorem expandSource_unjoinable :
    let done := ({} : Options).expandSource "doc" "(concat a (b))"
    done.reports.map (·.problem) = [.macroArgument "concat" "only atoms can be joined"] ∧
      done.reports.map (·.problem.category) = [.expansion] ∧
      done.nodes.map Node.text = ["a"] := by
  decide +kernel

end Expander

end Formwork
