import Formwork.Proofs.BlockTree.Mirror
import Formwork.Proofs.Resolver.Failures

namespace Formwork

/-!
# How requirements fail

When the outermost block of a tree closes, what waits lies scattered over the maps of all its
blocks. It fails nevertheless in the order in which it was required, and each failure says what the
history of calls says of it.

* `BlockTree.failures_classified` — how the requirements of a history fail.
-/

variable {κ ν τ : Type} [Kind κ]

namespace BlockTree

open Resolver (Action Asks AreWaiting ClosesAll Fails StillWaits)

/-- What a call decides does not depend on the calls after it. -/
theorem decidedAt_take (gs : Nat → Gathering (Demand κ τ × Option κ))
    (as : List (Action κ ν τ)) (m k : Nat) :
    Resolver.decidedAt (as.take m) k = if k < m then decidedAt gs as k else [] := by
  rw [decidedAt_eq, Resolver.decidedAt, Resolver.decidedAt]
  by_cases hk : k < m
  · rw [if_pos hk, List.getElem?_take_of_lt hk, List.take_take, Nat.min_eq_left (Nat.le_of_lt hk)]
  · have hnone : (as.take m)[k]? = none := by
      rw [List.getElem?_eq_none_iff, List.length_take]
      omega
    rw [if_neg hk, hnone, Option.elim_none]

/-- How the requirements of a history fail, when each call gathers in an order of its own. -/
structure FailuresClassified (gs : Nat → Gathering (Demand κ τ × Option κ))
    (as : List (Action κ ν τ)) : Prop where
  /-- As the outermost block closes, what still waits fails in the order in which it was required,
      whatever its block and its identifier, and nothing else is decided. -/
  inOrder : ∀ m, ClosesAll as m → ∃ qs, AreWaiting (as.take m) qs ∧
    List.Forall₂ (fun p o => Fails (as.take m) p.2 o) qs (decidedAt gs as m)
  /-- What still waits is what was required and nothing was decided of so far. -/
  waiting : ∀ m i q, Asks (as.take m) i q →
    (∀ k p, Asks (as.take m) k p → p.tag = q.tag → k = i) →
      (StillWaits (as.take m) i q ↔ ∀ k < m, ∀ o ∈ decidedAt gs as k, o.tag ≠ q.tag)
  /-- Whatever fails at any time was required before, and its failure says the same. -/
  only : ∀ m o u, o ∈ decidedAt gs as m → o.result = .error u →
    ∃ i q, i ≤ m ∧ Asks as i q ∧ Fails (as.take m) q o

/-- **Failures are told apart rightly, and come in order**, in every history of calls. -/
theorem failures_classified (gs : Nat → Gathering (Demand κ τ × Option κ))
    (as : List (Action κ ν τ)) : FailuresClassified gs as where
  inOrder := fun m hclose => by
    rw [decidedAt_eq]
    exact Resolver.fails_of_closesAll hclose
  waiting := fun m i q hasks htag => by
    rw [Resolver.stillWaits_iff_undecided hasks htag]
    refine forall_congr' fun k => ?_
    rw [decidedAt_take gs]
    -- what is decided by a call before the cut is decided in the cut too, and no other call is in
    -- it
    by_cases hk : k < m <;> simp [hk]
  only := fun m o u ho herror => by
    rw [decidedAt_eq] at ho
    exact Resolver.fails_of_mem_decisions (Resolver.mem_decisions_iff.mpr ho) herror

/-- Three requirements in two blocks, the second of them in a closed one. Nothing is `y`, and the
    `x` around them fits neither of the others. -/
def strayCalls (site : Node) : List (Action ReferenceKind String Nat) :=
  [.push [.any], .define site "x" ⟨"thing"⟩ "value", .resolve site "y" .any 0, .push [],
    .resolve site "x" ⟨"person"⟩ 1, .pop, .resolve site "x" ⟨"room"⟩ 2, .pop]

example (gs : Nat → Gathering (Demand ReferenceKind Nat × Option ReferenceKind)) (site : Node) :
    decidedAt gs (strayCalls site) 7 =
      [(0, "y", "*", none), (1, "x", "person", some "thing"), (2, "x", "room", some "thing")].map
        fun (tag, id, expected, found) =>
          { tag, result := .error { id, origin := site, expected, found } } := by
  rw [decidedAt_eq]
  cbv

end BlockTree

end Formwork
