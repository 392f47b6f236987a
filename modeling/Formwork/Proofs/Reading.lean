import Formwork.Report

namespace Formwork

/-!
# Readers and grammars

What reads a node gives a value, or one report of why there is none. It follows a grammar when it
gives exactly the values that the grammar allows.
-/

/-- Whether a reading follows a grammar, which allows some values and has words for what can be wrong
    otherwise. -/
structure Follows {α : Type} (allowed : α → Prop) (fault : Report → Prop)
    (reading : Except Report α) : Prop where
  /-- A value is read exactly when it is allowed. -/
  accepts : ∀ a, reading = .ok a ↔ allowed a
  /-- If none is, there is one report, -/
  refuses : (∃ report, reading = .error report) ↔ ¬∃ a, allowed a
  /-- and it says what is wrong. -/
  reports : ∀ report, reading = .error report → fault report

/-- A reading follows a grammar when it gives what is allowed and there is a fault where nothing
    is. -/
theorem Follows.of_cases {α : Type} {allowed : α → Prop} {fault : Report → Prop}
    {reading : Except Report α} (hread : ∀ a, allowed a → reading = .ok a)
    (hcases : (∃ a, allowed a) ∨ ∃ report, fault report ∧ reading = .error report) :
    Follows allowed fault reading := by
  -- something is allowed, and then only that is read, or a fault is reported
  obtain ⟨a, ha⟩ | ⟨report, hfault, herror⟩ := hcases
  · have hnever : ∀ report, reading ≠ .error report := by
      intro report h
      rw [hread a ha] at h
      cases h
    refine
      { accepts := fun b => ⟨fun hb => ?_, hread b⟩
        refuses := iff_of_false (fun ⟨report, h⟩ => hnever report h) fun h => h ⟨a, ha⟩
        reports := fun report h => absurd h (hnever report) }
    rw [hread a ha] at hb
    cases hb
    exact ha
  · have hnever : ∀ a, reading ≠ .ok a := by
      intro a h
      rw [herror] at h
      cases h
    refine
      { accepts := fun a => ⟨fun h => absurd h (hnever a), hread a⟩
        refuses := iff_of_true ⟨report, herror⟩ fun ⟨a, ha⟩ => hnever a (hread a ha)
        reports := fun report' h => ?_ }
    rw [herror] at h
    cases h
    exact hfault

end Formwork
