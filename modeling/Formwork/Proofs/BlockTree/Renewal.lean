import Formwork.Proofs.BlockTree.Mirror
import Formwork.Proofs.References.Calls

namespace Formwork

/-!
# Starting afresh

Once the outermost block has closed, nothing of the calls before can be seen any more. The tree goes
on counting its requirements, but only the order of the numbers is ever looked at.

* `Resolver.run_eq_empty_of_depth_eq_zero` — with no block open, a resolver is a fresh one.
* `BlockTree.checkInTurn_eq` — so documents that are checked one after another on one tree are each
  checked as on a tree of its own.
* `BlockTree.renewed` — what follows is found, decided and reported as on a new tree.
-/

variable {κ ν τ : Type} [Kind κ]

namespace Resolver

/-- With no block open, a resolver is a fresh one. -/
theorem run_eq_empty_of_depth_eq_zero {as : List (Action κ ν τ)} (h : (run as).depth = 0) :
    run as = empty := by
  induction as using List.reverseRecOn with
  | nil => rfl
  | append_singleton as a ih =>
    have hdoes := last_does as a
    rw [run_snoc] at h ⊢
    generalize (run as).act a = e at hdoes h
    -- a call that leaves no block open closes the outermost one, or finds none open and does
    -- nothing
    cases hdoes with
    | opens => cases h
    | closesLast => rfl
    | closes b blocks hne => exact absurd (List.eq_nil_of_length_eq_zero h) hne
    | stores b d outcomes _ htaken =>
      have hnone : (run as).blocks = [] := List.eq_nil_of_length_eq_zero h
      rw [accepting?, hnone] at htaken
      cases htaken
    | waits _ _ _ _ hopen => exact absurd (List.eq_nil_of_length_eq_zero h) hopen
    | popsNothing | refuses | finds | fails => exact ih h

/-- From depth 0 calls lead to where they lead from nothing. -/
theorem run_append_of_depth_eq_zero {as : List (Action κ ν τ)} (h : (run as).depth = 0)
    (bs : List (Action κ ν τ)) : run (as ++ bs) = run bs := by
  rw [run, List.foldl_append]
  show bs.foldl _ (run as) = _
  rw [run_eq_empty_of_depth_eq_zero h]
  rfl

omit [Kind κ] in
/-- A call of the second list, counted from the start. -/
theorem getElem?_length_add (as bs : List (Action κ ν τ)) (k : Nat) :
    (as ++ bs)[as.length + k]? = bs[k]? := by
  rw [List.getElem?_append_right (Nat.le_add_right _ _), Nat.add_sub_cancel_left]

omit [Kind κ] in
/-- The calls before one of the second list are all of the first and some of the second. -/
theorem take_length_add (as bs : List (Action κ ν τ)) (k : Nat) :
    (as ++ bs).take (as.length + k) = as ++ bs.take k := by
  rw [List.take_append, List.take_of_length_le (Nat.le_add_right _ _), Nat.add_sub_cancel_left]

/-- From depth 0 each call decides what it decides on a new resolver. -/
theorem decidedAt_append_of_depth_eq_zero {as : List (Action κ ν τ)} (h : (run as).depth = 0)
    (bs : List (Action κ ν τ)) (k : Nat) :
    decidedAt (as ++ bs) (as.length + k) = decidedAt bs k := by
  rw [decidedAt, getElem?_length_add, take_length_add, run_append_of_depth_eq_zero h]
  rfl

/-- It is reported as it is on a new resolver. -/
theorem report?_append_of_depth_eq_zero {as : List (Action κ ν τ)} (h : (run as).depth = 0)
    (bs : List (Action κ ν τ)) (k : Nat) :
    report? (as ++ bs) (as.length + k) = report? bs k := by
  rw [report?, getElem?_length_add, take_length_add, run_append_of_depth_eq_zero h]
  rfl

end Resolver

namespace ReferenceChecker

/-- Checks documents one after another with one checker. -/
def checkInTurn (c : ReferenceChecker) : List (List Node) → List (List Resolved × List Report)
  | [] => []
  | ns :: docs => (c.check ns).2 :: checkInTurn (c.check ns).1 docs

/-- Each document is checked as by a checker of its own. -/
theorem checkInTurn_eq (scopes : Scopes) (docs : List (List Node)) :
    checkInTurn { scopes } docs = docs.map (checkReferences scopes) := by
  induction docs with
  | nil => rfl
  | cons ns docs ih =>
    rw [checkInTurn, check_renews, ih]
    rfl

end ReferenceChecker

namespace BlockTree

open Resolver (Action)

/-- After some calls a tree is as a new one: whatever calls follow, and in whatever orders either of
    the two gathers, both find, decide and report the same. -/
structure AsNew (as : List (Action κ ν τ)) : Prop where
  depth : ∀ gs gs' bs, (run gs (as ++ bs)).depth = (run gs' bs).depth
  finds : ∀ gs gs' bs id kind,
    (run gs (as ++ bs)).find? id kind = (run gs' bs).find? id kind
  decides : ∀ gs gs' bs k, decidedAt gs (as ++ bs) (as.length + k) = decidedAt gs' bs k
  reports : ∀ gs gs' bs k, report? gs (as ++ bs) (as.length + k) = report? gs' bs k

/-! ### Documents -/

section Documents

variable (gs : Nat → Gathering (Demand ReferenceKind (String × Node) × Option ReferenceKind))
variable (scopes : Scopes)

/-- What a checker that works on a tree answers for a document, after some other calls. -/
def checkAfter (before : List ReferenceCall) (ns : List Node) : List Resolved × List Report :=
  let calls := documentCalls scopes ns
  let decides k := decidedAt gs (before ++ calls) (before.length + k)
  let reports k := report? gs (before ++ calls) (before.length + k)
  ReferenceChecker.answers ((List.range calls.length).flatMap decides)
    ((List.range calls.length).filterMap reports)

/-- Checks documents one after another on one tree. -/
def checkInTurn (before : List ReferenceCall) :
    List (List Node) → List (List Resolved × List Report)
  | [] => []
  | ns :: docs =>
    checkAfter gs scopes before ns :: checkInTurn (before ++ documentCalls scopes ns) docs

/-- After any calls that leave no block open, a document is checked as by a new checker. -/
theorem checkAfter_eq {before : List ReferenceCall} (h : (Resolver.run before).depth = 0)
    (ns : List Node) : checkAfter gs scopes before ns = checkReferences scopes ns := by
  have hdecides : ∀ k, decidedAt gs (before ++ documentCalls scopes ns) (before.length + k)
      = Resolver.decidedAt (documentCalls scopes ns) k := fun k => by
    rw [decidedAt_eq, Resolver.decidedAt_append_of_depth_eq_zero h]
  have hreports : ∀ k, report? gs (before ++ documentCalls scopes ns) (before.length + k)
      = Resolver.report? (documentCalls scopes ns) k := fun k => by
    rw [report?_eq, Resolver.report?_append_of_depth_eq_zero h]
  rw [checkReferences, ReferenceChecker.check_eq_answers]
  simp only [checkAfter, hdecides, hreports]
  rfl

/-- **Each document is checked as on a tree of its own.** The calls for it leave no block open. -/
theorem checkInTurn_eq {before : List ReferenceCall} (h : (Resolver.run before).depth = 0)
    (docs : List (List Node)) :
    checkInTurn gs scopes before docs = docs.map (checkReferences scopes) := by
  induction docs generalizing before with
  | nil => rfl
  | cons ns docs ih =>
    have hafter : (Resolver.run (before ++ documentCalls scopes ns)).depth = 0 := by
      rw [Resolver.run_append_of_depth_eq_zero h, ReferenceChecker.run_documentCalls]
      rfl
    rw [checkInTurn, checkAfter_eq gs scopes h, ih hafter, List.map_cons]

end Documents

/-- **With no block open a tree is as a new one**, and so documents that are checked one after
    another are each checked as by a new checker. -/
theorem renewed {gs : Nat → Gathering (Demand κ τ × Option κ)} {as : List (Action κ ν τ)}
    (hclosed : (run gs as).depth = 0) :
    AsNew as ∧ ∀ gs' scopes docs,
      checkInTurn gs' scopes [] docs = docs.map (checkReferences scopes) ∧
        ReferenceChecker.checkInTurn { scopes } docs = docs.map (checkReferences scopes) := by
  rw [depth_run] at hclosed
  refine ⟨?_, fun gs' scopes docs =>
    ⟨checkInTurn_eq gs' scopes rfl docs, ReferenceChecker.checkInTurn_eq scopes docs⟩⟩
  refine
    { depth := fun gs gs' bs => ?_, finds := fun gs gs' bs id kind => ?_
      decides := fun gs gs' bs k => ?_, reports := fun gs gs' bs k => ?_ }
  · rw [depth_run, depth_run, Resolver.run_append_of_depth_eq_zero hclosed]
  · rw [find?_run, find?_run, Resolver.run_append_of_depth_eq_zero hclosed]
  · rw [decidedAt_eq, decidedAt_eq, Resolver.decidedAt_append_of_depth_eq_zero hclosed]
  · rw [report?_eq, report?_eq, Resolver.report?_append_of_depth_eq_zero hclosed]

/-- Where an identifier `x` stands. -/
def markOfX : Node := .atom (.plain "x" .nowhere)

/-- A block with a definition of `x`. -/
def definingCalls : List (Action ReferenceKind String Nat) :=
  [.push [.any], .define markOfX "x" ⟨"thing"⟩ "value", .pop]

/-- A block in which `x` is required and not defined. -/
def requiringCalls : List (Action ReferenceKind String Nat) :=
  [.push [.any], .resolve markOfX "x" ⟨"thing"⟩ 0, .pop]

/-- A definition in a block that has been closed is not found later: as the second block closes,
    nothing of the identifier is known. -/
theorem renewed_after_definition :
    (run (fun _ => .listed) definingCalls).depth = 0 ∧
      decidedAt (fun _ => .reversed) (definingCalls ++ requiringCalls) 5
        = [{ tag := 0
             result := .error
               { id := "x", origin := markOfX, expected := "thing", found := none } }] := by
  have hclosed : (run (fun _ => .listed) definingCalls).depth = 0 := by
    rw [depth_run]
    rfl
  refine ⟨hclosed, ?_⟩
  have hdecides := (renewed hclosed).1.decides (fun _ => .reversed) (fun _ => .listed)
    requiringCalls 2
  rw [decidedAt_eq _ requiringCalls] at hdecides
  exact hdecides

end BlockTree

end Formwork
