import Formwork.Proofs.References.Complete
import Formwork.Proofs.Resolver.History

namespace Formwork

/-!
# The calls of a checker

What a checker asks of its resolver does not depend on what it hears from it. So the calls that it
makes for a document are read off the document, and what it answers is what they decide and report.

* `ReferenceChecker.visitAll_eq` — a checker goes through nodes by making their calls.
* `ReferenceChecker.check_eq_answers` — what it answers for a document.
* `ReferenceChecker.run_documentCalls` — the calls for a document leave no block open.
-/

namespace Resolver

variable {κ ν τ : Type} [Kind κ]

/-- What is decided in some calls, in order. -/
def decided (as : List (Action κ ν τ)) : List (Outcome ν τ) :=
  (List.range as.length).flatMap (decidedAt as)

/-- What is reported in some calls, in order. -/
def reported (as : List (Action κ ν τ)) : List Report :=
  (List.range as.length).filterMap (report? as)

/-- One call more decides what it decides, after all else. -/
theorem decided_snoc (as : List (Action κ ν τ)) (a : Action κ ν τ) :
    decided (as ++ [a]) = decided as ++ ((run as).act a).outcomes := by
  unfold decided
  rw [List.length_append, List.length_singleton, List.range_succ, List.flatMap_append]
  congr 1
  · refine List.flatMap_congr fun k hk => ?_
    rw [decidedAt_append as [a] (List.mem_range.mp hk)]
  · simp [decidedAt]

/-- One call more is reported last, if it is. -/
theorem reported_snoc (as : List (Action κ ν τ)) (a : Action κ ν τ) :
    reported (as ++ [a]) = reported as ++ ((run as).act a).report?.toList := by
  have hlast : report? (as ++ [a]) as.length = ((run as).act a).report? := by
    simp [report?]
  unfold reported
  rw [List.length_append, List.length_singleton, List.range_succ, List.filterMap_append]
  congr 1
  · refine List.filterMap_congr fun k hk => ?_
    rw [report?_append as [a] (List.mem_range.mp hk)]
  · rw [List.filterMap_cons, hlast]
    cases ((run as).act a).report? <;> rfl

end Resolver

/-- A call of a checker. -/
abbrev ReferenceCall := Resolver.Action ReferenceKind Node (String × Node)

/-- The call for what a form defines. -/
def namingCalls (form : Node) : List ReferenceCall :=
  match form.headName?, definedName? form with
  | some head, some id => [.define form id ⟨head⟩ form]
  | _, _ => []

/-- The call for what an atom refers to. -/
def mentionCalls (a : Atom) : List ReferenceCall :=
  match a.reference? with
  | some id => [.resolve (.atom a) id .any (id, .atom a)]
  | none => []

/-- The calls that open and close the scope of a form, around those for what is inside. -/
def scopeCalls (scopes : Scopes) (form : Node) (inside : List ReferenceCall) :
    List ReferenceCall :=
  match scopes.kinds? form with
  | some kinds => .push (kinds.map .mk) :: inside ++ [.pop]
  | none => inside

mutual

/-- The calls for a node. -/
def nodeCalls (scopes : Scopes) : Node → List ReferenceCall
  | .atom a => mentionCalls a
  | .comment _ => []
  | .group d cs l s =>
    namingCalls (.group d cs l s) ++ scopeCalls scopes (.group d cs l s) (nodesCalls scopes cs)

/-- The calls for a list of nodes. -/
def nodesCalls (scopes : Scopes) : List Node → List ReferenceCall
  | [] => []
  | n :: ns => nodeCalls scopes n ++ nodesCalls scopes ns

end

/-- The calls for a document, which has a block of its own. -/
def documentCalls (scopes : Scopes) (ns : List Node) : List ReferenceCall :=
  .push [.any] :: nodesCalls scopes ns ++ [.pop]

namespace ReferenceChecker

/-- Makes a call, and keeps what it decides and reports. -/
def perform (c : ReferenceChecker) (a : ReferenceCall) : ReferenceChecker :=
  let e := c.resolver.act a
  let settled := c.settle (e.after, e.outcomes)
  { settled with reports := settled.reports ++ e.report?.toList }

/-- Makes some calls. -/
def performAll (c : ReferenceChecker) (as : List ReferenceCall) : ReferenceChecker :=
  as.foldl perform c

/-- What a checker answers when its calls have decided and reported something. -/
def answers (outcomes : List (Outcome Node (String × Node))) (reports : List Report) :
    List Resolved × List Report :=
  (outcomes.filterMap answer?, reports ++ (outcomes.filterMap failure?).map Unresolved.report)

/-- Calls may be made in parts. -/
theorem performAll_append (c : ReferenceChecker) (as bs : List ReferenceCall) :
    c.performAll (as ++ bs) = (c.performAll as).performAll bs :=
  List.foldl_append

/-- A call does not change which heads open scopes. -/
theorem perform_scopes (c : ReferenceChecker) (a : ReferenceCall) :
    (c.perform a).scopes = c.scopes := by
  rw [perform, settle_eq]

/-- Nor do some calls. -/
theorem performAll_scopes (c : ReferenceChecker) (as : List ReferenceCall) :
    (c.performAll as).scopes = c.scopes := by
  induction as generalizing c with
  | nil => rfl
  | cons a as ih =>
    show ((c.perform a).performAll as).scopes = c.scopes
    rw [ih, perform_scopes]

/-! ### Going through nodes -/

/-- A form makes a call only if it has a head and a name. -/
theorem define_eq (c : ReferenceChecker) (form : Node) :
    c.define form = c.performAll (namingCalls form) := by
  unfold define namingCalls
  rcases form.headName? with _ | head
  · rfl
  rcases definedName? form with _ | id
  · rfl
  show _ = c.perform (.define form id ⟨head⟩ form)
  rcases hdefine : c.resolver.define form id ⟨head⟩ form with report | ⟨r, outcomes⟩
  · simp [perform, Resolver.act, hdefine, settle_eq]
  · simp [perform, Resolver.act, hdefine]

/-- An atom makes a call if it is a reference. -/
theorem visit_atom_eq (c : ReferenceChecker) (a : Atom) :
    c.visit (.atom a) = c.performAll (mentionCalls a) := by
  unfold visit mentionCalls
  rcases a.reference? with _ | id
  · rfl
  · show c.require (.atom a) id = c.perform _
    simp [perform, Resolver.act, require]

/-- The scope of a form takes the kinds that its head stands for. -/
theorem scope?_eq (c : ReferenceChecker) (form : Node) :
    c.scope? form = (c.scopes.kinds? form).map fun kinds => kinds.map .mk :=
  rfl

/-- Opening a scope does not change which heads open scopes. -/
theorem enter_scopes (c : ReferenceChecker) (form : Node) : (c.enter form).scopes = c.scopes := by
  unfold enter
  cases c.scope? form <;> rfl

/-- Opening a block decides nothing. -/
theorem perform_push (c : ReferenceChecker) (kinds : List ReferenceKind) :
    c.perform (.push kinds) = { c with resolver := c.resolver.push kinds } := by
  simp [perform, Resolver.act, settle_eq]

/-- What closing a block decides is kept. -/
theorem perform_pop (c : ReferenceChecker) : c.perform .pop = c.settle c.resolver.pop := by
  simp [perform, Resolver.act]

/-- The calls for what is inside a form stand between those for its scope. -/
theorem scope_eq (c : ReferenceChecker) (form : Node) (inside : List ReferenceCall) :
    ((c.enter form).performAll inside).leave form
      = c.performAll (scopeCalls c.scopes form inside) := by
  unfold leave
  rw [scope?_eq, performAll_scopes, enter_scopes]
  unfold enter scopeCalls
  rw [scope?_eq]
  -- a form that opens no scope makes no calls of its own
  rcases c.scopes.kinds? form with _ | kinds
  · rfl
  · show _ = (c.perform (.push (kinds.map .mk))).performAll (inside ++ [.pop])
    rw [performAll_append, perform_push]
    exact (perform_pop _).symm

mutual

/-- A checker goes through a node by making its calls. -/
theorem visit_eq : ∀ (n : Node) (c : ReferenceChecker),
    c.visit n = c.performAll (nodeCalls c.scopes n)
  | .atom a, c => c.visit_atom_eq a
  | .comment _, _ => rfl
  | .group d cs l s, c => by
    have hinside := visitAll_eq cs ((c.define (.group d cs l s)).enter (.group d cs l s))
    have hscopes : (c.define (.group d cs l s)).scopes = c.scopes := by
      rw [define_eq, performAll_scopes]
    rw [enter_scopes, hscopes] at hinside
    rw [visit, hinside, scope_eq, hscopes, define_eq, nodeCalls, performAll_append]

/-- **A checker goes through nodes** by making their calls. -/
theorem visitAll_eq : ∀ (ns : List Node) (c : ReferenceChecker),
    c.visitAll ns = c.performAll (nodesCalls c.scopes ns)
  | [], _ => rfl
  | n :: ns, c => by
    rw [visitAll, visit_eq n c, visitAll_eq ns, performAll_scopes, nodesCalls, performAll_append]

end

/-! ### Whole documents -/

/-- What a fresh checker has after some calls. What it has heard is a matter of the calls alone. -/
theorem performAll_eq (scopes : Scopes) (as : List ReferenceCall) :
    ({ scopes } : ReferenceChecker).performAll as =
      { scopes
        resolver := Resolver.run as
        resolved := (Resolver.decided as).filterMap answer?
        failed := (Resolver.decided as).filterMap failure?
        reports := Resolver.reported as } := by
  -- the induction is from the end, as each call is made in the state the calls before it left
  induction as using List.reverseRecOn with
  | nil => rfl
  | append_singleton as a ih =>
    have hlast : ({ scopes } : ReferenceChecker).performAll (as ++ [a])
        = (({ scopes } : ReferenceChecker).performAll as).perform a :=
      performAll_append _ as [a]
    rw [hlast, ih, perform, settle_eq, Resolver.run_snoc, Resolver.decided_snoc,
      Resolver.reported_snoc, List.filterMap_append, List.filterMap_append]

/-- **What a checker answers** is what the calls for the document decide and report. -/
theorem check_eq_answers (scopes : Scopes) (ns : List Node) :
    ReferenceChecker.check { scopes } ns =
      ({ scopes, resolver := Resolver.run (documentCalls scopes ns) },
        answers (Resolver.decided (documentCalls scopes ns))
          (Resolver.reported (documentCalls scopes ns))) := by
  let opened : ReferenceChecker := { scopes, resolver := Resolver.empty.push [.any] }
  have hclosed : ({ scopes } : ReferenceChecker).performAll (documentCalls scopes ns)
      = (opened.visitAll ns).settle (opened.visitAll ns).resolver.pop := by
    have hopened : ({ scopes } : ReferenceChecker).perform (.push [.any]) = opened :=
      perform_push _ _
    -- the block of the document is opened first and closed last
    rw [documentCalls, List.cons_append]
    show (ReferenceChecker.perform _ _).performAll _ = _
    rw [performAll_append, hopened, visitAll_eq]
    exact perform_pop _
  rw [performAll_eq] at hclosed
  simp only [check]
  rw [← hclosed]
  rfl

/-- The calls for a document close every block that they open. -/
theorem run_documentCalls (scopes : Scopes) (ns : List Node) :
    Resolver.run (documentCalls scopes ns) = .empty := by
  have hrenews := check_renews scopes ns
  rw [check_eq_answers] at hrenews
  exact congrArg ReferenceChecker.resolver hrenews

end ReferenceChecker

end Formwork
