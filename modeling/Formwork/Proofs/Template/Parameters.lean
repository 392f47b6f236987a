import Formwork.Proofs.Template.Definitions

namespace Formwork.Template

/-!
# The parameters of a template that has been read

Parameters that may be declared together are kept apart by their names, kind by kind, and a count
can tell whether all positional ones that have to be given are.

* `Template.Ordered` — what holds of the parameters of a template that has been read.
* `Template.ordered_withParameters`, `Template.ordered_of_define` — it does.
* `Template.Ordered.lt_countP` — of enough positional arguments each parameter that needs one has
  one.
-/

/-- What holds of the parameters of a template: the number of a positional one is read back from
    the numeral it prints as, those that have to be given come first, and the keyword ones have
    different names, none of which is such a numeral or the name of the rest. -/
structure Ordered (t : Template) : Prop where
  numbered : ∀ i < t.positional.length, Text.plainCount? (toString (i + 1)) = some (i + 1)
  requiredFirst : t.positional.Pairwise fun f g => g.isRequired = true → f.isRequired = true
  distinct : (t.named.map Prod.fst).Nodup
  unnumbered : ∀ p ∈ t.named, Text.plainCount? p.1 = none
  notRest : ∀ p ∈ t.named, p.1 ≠ restName

variable {t : Template}

open Parameter

/-- **Parameters that may be declared together** are in order. -/
theorem ordered_withParameters (t : Template) {ps : List Parameter} (h : ValidAll ps) :
    (t.withParameters ps).Ordered where
  numbered := by
    intro i hi
    rw [length_positional_withParameters] at hi
    obtain ⟨p, hp, hnumber⟩ := h.mem_numbers_iff.mpr ⟨Nat.le_add_left 1 i, hi⟩
    have hcanonical := h.canonical p hp _ hnumber
    rw [plainCount?_eq_some_iff, hcanonical]
    exact ⟨hnumber, rfl⟩
  requiredFirst := by
    rw [withParameters, List.pairwise_map]
    simp only [isRequired_fallback]
    exact h.mandatoryFirst
  distinct := by
    have hkeyword : ps.filter isKeyword =
        (ps.filter fun p => !p.isPositional).filter fun p => !p.isRest := by
      rw [List.filter_filter]
      exact List.filter_congr fun p _ => Bool.and_comm _ _
    rw [withParameters, List.map_map, hkeyword]
    exact h.distinct.sublist (List.filter_sublist.map Parameter.name)
  unnumbered := by
    intro e he
    obtain ⟨p, hp, rfl⟩ := List.mem_map.mp he
    have hnumber : Text.count? p.name = none :=
      isPositional_eq_false_iff.mp (isKeyword_iff.mp (List.mem_filter.mp hp).2).1
    rw [Text.plainCount?, hnumber, Option.filter_none]
  notRest := by
    intro e he
    obtain ⟨p, hp, rfl⟩ := List.mem_map.mp he
    exact of_decide_eq_false (isKeyword_iff.mp (List.mem_filter.mp hp).2).2

/-- **A template that is read** has its parameters in order, and the reports made of it are of the
    placeholders that it does not declare. -/
theorem ordered_of_define {definition : Node} {reports : List Report}
    (h : define definition = .ok (t, reports)) : t.Ordered ∧ reports = t.unbound := by
  obtain ⟨d, -, heq⟩ := ((define_follows definition).accepts _).mp h
  cases heq
  exact ⟨ordered_withParameters _ d.valid, (d.unbound_template _).symm⟩

/-! ### What follows from the order -/

namespace Ordered

/-- Different positional parameters have different numerals. -/
theorem toString_inj (h : t.Ordered) {i j : Nat} (hi : i < t.positional.length)
    (hj : j < t.positional.length) (hsame : toString (i + 1) = toString (j + 1)) : i = j := by
  have hnumber := h.numbered i hi
  rw [hsame, h.numbered j hj] at hnumber
  exact (Nat.succ.inj (Option.some.inj hnumber)).symm

/-- The numeral of a positional parameter is no keyword parameter. -/
theorem toString_ne_of_mem_named (h : t.Ordered) {i : Nat} (hi : i < t.positional.length)
    {p : String × Fallback} (hp : p ∈ t.named) : p.1 ≠ toString (i + 1) := by
  intro hsame
  have hnone := h.unnumbered p hp
  rw [hsame, h.numbered i hi] at hnone
  cases hnone

/-- The numeral of a positional parameter is not the name of the rest. -/
theorem toString_ne_restName (h : t.Ordered) {i : Nat} (hi : i < t.positional.length) :
    toString (i + 1) ≠ restName := by
  intro hsame
  have hnumber := h.numbered i hi
  have hnone : Text.plainCount? restName = none := by decide
  rw [hsame, hnone] at hnumber
  cases hnumber

/-- **A count is enough:** a positional parameter that has to be given has a place below the number
    of those that have to be. -/
theorem lt_countP (h : t.Ordered) {i : Nat} {f : Fallback} (hf : t.positional[i]? = some f)
    (hrequired : f.isRequired = true) : i < t.positional.countP Fallback.isRequired := by
  have hfirst := h.requiredFirst
  generalize t.positional = fs at hf hfirst
  induction fs generalizing i with
  | nil => cases hf
  | cons g fs ih =>
    obtain ⟨hg, hfs⟩ := List.pairwise_cons.mp hfirst
    cases i with
    | zero =>
      cases hf
      rw [List.countP_cons_of_pos hrequired]
      exact Nat.succ_pos _
    | succ i =>
      have hmem : f ∈ fs := List.mem_of_getElem? hf
      rw [List.countP_cons_of_pos (hg f hmem hrequired)]
      exact Nat.succ_lt_succ (ih hf hfs)

end Ordered

end Formwork.Template
