import Formwork.Proofs.Template.ParameterLists

namespace Formwork.Template

/-!
# Declaring parameters

The reader declares the parameters of a template one after another. Each is checked against what
the ones before it have declared; what it has declared so far is always read off their list, so
that the checks come to what the list has to meet.

* `Template.withParameters` — the parameters of a template, read off a list.
* `Parameter.Refusal` — what can be wrong with a parameter after others, and how it is reported.
* `Template.declare_cases` — a parameter joins the others or is refused.
* `Template.foldlM_declare_cases` — so parameters are declared as a list that may be, or the first
  one that does not join those before it is reported.
-/

open Parameter

/-- The template with the parameters of a list in place of its own. -/
def withParameters (t : Template) (ps : List Parameter) : Template :=
  { t with
    named := (ps.filter isKeyword).map fun p => (p.name, p.fallback)
    positional := (ps.filter isPositional).map fallback
    rest := (ps.find? isRest).map fun p => p.defaults.getD [] }

/-- What can be wrong with a parameter after others, and what is reported of it. -/
inductive Parameter.Refusal (ps : List Parameter) (p : Parameter) (malformed : Problem) :
    Problem → Prop where
  /-- It is a numeral that is not written as its value prints. -/
  | unplain {k : Nat} (hnumber : p.number? = some k) (hname : toString k ≠ p.name) :
      Refusal ps p malformed malformed
  /-- Its number is not the next one. -/
  | outOfOrder {k : Nat} (hnumber : p.number? = some k)
      (hnext : k ≠ ps.countP isPositional + 1) :
      Refusal ps p malformed (.positionalOutOfOrder p.name)
  /-- It has to be given, and one before it has not. -/
  | late {q : Parameter} (hpositional : p.isPositional = true) (hmandatory : p.isMandatory = true)
      (hq : q ∈ ps) (hqpositional : q.isPositional = true) (hoptional : q.isMandatory = false) :
      Refusal ps p malformed (.mandatoryAfterOptional p.name)
  /-- It has more than one default. -/
  | manyDefaults (hrest : p.isRest = false) (hmany : ¬p.FewDefaults) :
      Refusal ps p malformed malformed
  /-- There is one of its name already. -/
  | duplicate {q : Parameter} (hpositional : p.isPositional = false) (hq : q ∈ ps)
      (hname : q.name = p.name) :
      Refusal ps p malformed (.duplicateParameter p.name)

/-- What declaring a parameter after others comes to. -/
inductive Attempt (t : Template) (ps : List Parameter) (p : Parameter) (malformed : Problem) :
    Except Problem Template → Prop where
  | joins (h : Joins ps p) : Attempt t ps p malformed (.ok (t.withParameters (ps ++ [p])))
  | refused {problem : Problem} (h : Refusal ps p malformed problem) :
      Attempt t ps p malformed (.error problem)

variable {t : Template} {ps : List Parameter} {p : Parameter} {malformed : Problem}

/-- A parameter that is refused does not join the others. -/
theorem Parameter.Refusal.not_joins {problem : Problem} (h : Refusal ps p malformed problem) :
    ¬Joins ps p := by
  intro hjoins
  cases h with
  | unplain hnumber hname => exact hname (hjoins.canonical _ hnumber)
  | outOfOrder hnumber hnext => exact hnext (hjoins.next _ hnumber)
  | late hpositional hmandatory hq hqpositional hoptional =>
    have hgiven := hjoins.mandatory hpositional hmandatory _ hq hqpositional
    exact Bool.noConfusion (hgiven.symm.trans hoptional)
  | manyDefaults hrest hmany => exact hmany (hjoins.fewDefaults hrest)
  | duplicate hpositional hq hname => exact hjoins.fresh hpositional _ hq hname

/-! ### What has been declared -/

/-- A template has as many positional parameters as were declared. -/
theorem length_positional_withParameters (t : Template) (ps : List Parameter) :
    (t.withParameters ps).positional.length = ps.countP isPositional := by
  rw [withParameters, List.length_map, List.countP_eq_length_filter]

/-- Whether a positional parameter has been declared that need not be given. -/
theorem any_positional_withParameters :
    ((t.withParameters ps).positional.any fun f => !f.isRequired) = true ↔
      ∃ q ∈ ps, q.isPositional = true ∧ q.isMandatory = false := by
  simp only [withParameters, List.any_map, List.any_eq_true, List.mem_filter, Function.comp_apply,
    isRequired_fallback, Bool.not_eq_true', and_assoc]

/-- Whether a parameter of a name that only keyword parameters may have has been declared. -/
theorem any_named_withParameters {arg : String}
    (hkeyword : ∀ q ∈ ps, q.name = arg → q.isKeyword = true) :
    ((t.withParameters ps).named.any fun q => decide (q.1 = arg)) = true ↔
      ∃ q ∈ ps, q.name = arg := by
  simp only [withParameters, List.any_map, List.any_eq_true, List.mem_filter, Function.comp_apply,
    decide_eq_true_eq, and_assoc]
  exact exists_congr fun q => and_congr_right fun hq => and_iff_right_of_imp (hkeyword q hq)

/-- Whether the rest has been declared. -/
theorem isSome_rest_withParameters :
    (t.withParameters ps).rest.isSome = true ↔ ∃ q ∈ ps, q.name = restName := by
  rw [withParameters, Option.isSome_map, List.find?_isSome]
  simp only [isRest, decide_eq_true_eq]

/-- A positional parameter is added after the others. -/
theorem withParameters_snoc_positional (hpositional : p.isPositional = true)
    (hrest : p.isRest = false) :
    t.withParameters (ps ++ [p]) =
      { t.withParameters ps with
        positional := (t.withParameters ps).positional ++ [p.fallback] } := by
  have hkeyword : p.isKeyword = false := by rw [isKeyword, hpositional]; rfl
  simp [withParameters, hpositional, hkeyword, hrest]

/-- So is a keyword. -/
theorem withParameters_snoc_keyword (hkeyword : p.isKeyword = true) :
    t.withParameters (ps ++ [p]) =
      { t.withParameters ps with
        named := (t.withParameters ps).named ++ [(p.name, p.fallback)] } := by
  obtain ⟨hpositional, hrest⟩ := isKeyword_iff.mp hkeyword
  simp [withParameters, hpositional, hkeyword, hrest]

/-- The rest is kept apart, and a template without one has one then. -/
theorem withParameters_snoc_rest (hpositional : p.isPositional = false) (hrest : p.isRest = true)
    (hfirst : (t.withParameters ps).rest.isSome = false) :
    t.withParameters (ps ++ [p]) =
      { t.withParameters ps with rest := some (p.defaults.getD []) } := by
  have hkeyword : p.isKeyword = false := by rw [isKeyword, hrest, Bool.not_true, Bool.and_false]
  have hnone : ps.find? isRest = none := by
    rwa [withParameters, Option.isSome_map, Option.isSome_eq_false_iff, Option.isNone_iff_eq_none]
      at hfirst
  simp [withParameters, hpositional, hkeyword, hrest, hnone]

/-! ### The checks of each kind -/

/-- Declaring a positional parameter. -/
theorem declarePositional_attempt {k : Nat} (hnumber : p.number? = some k)
    (hcanonical : toString k = p.name) :
    Attempt t ps p malformed
      ((t.withParameters ps).declarePositional malformed p.name k p.defaults) := by
  have hpositional := isPositional_of_number? hnumber
  have hrest := isRest_of_number? hnumber
  -- the checks in their order: the number, the place of a parameter that has to be given, the
  -- defaults
  unfold declarePositional
  rw [length_positional_withParameters]
  split
  case isTrue hnext => exact .refused (.outOfOrder hnumber hnext)
  case isFalse hnext =>
    split
    case isTrue hlate =>
      obtain ⟨hmandatory, hoptional⟩ := Bool.and_eq_true_iff.mp hlate
      obtain ⟨q, hq, hqpositional, hqoptional⟩ := any_positional_withParameters.mp hoptional
      exact .refused (.late hpositional hmandatory hq hqpositional hqoptional)
    case isFalse hlate =>
      cases hf : Fallback.ofDefaults? p.defaults with
      | none => exact .refused (.manyDefaults hrest (ofDefaults?_eq_none_iff.mp hf))
      | some f =>
        obtain ⟨hfew, rfl⟩ := ofDefaults?_eq_some_iff.mp hf
        have hgiven : p.isMandatory = true →
            ∀ q ∈ ps, q.isPositional = true → q.isMandatory = true := by
          intro hmandatory q hq hqpositional
          by_contra hqoptional
          rw [Bool.not_eq_true] at hqoptional
          exact hlate (Bool.and_eq_true_iff.mpr
            ⟨hmandatory, any_positional_withParameters.mpr ⟨q, hq, hqpositional, hqoptional⟩⟩)
        have hjoins : Joins ps p :=
          .of_number? hnumber hcanonical (not_not.mp hnext) hgiven hfew
        have h : Attempt t ps p malformed _ := .joins hjoins
        rwa [withParameters_snoc_positional hpositional hrest] at h

/-- Declaring the parameter for positional arguments left over. -/
theorem declareRest_attempt (hrest : p.isRest = true) :
    Attempt t ps p malformed ((t.withParameters ps).declareRest p.defaults) := by
  have hnumber := number?_of_isRest hrest
  have hpositional := isPositional_eq_false_iff.mpr hnumber
  have hname : p.name = restName := of_decide_eq_true hrest
  -- a rest is refused only if there is one; what its defaults are does not matter
  unfold declareRest
  split
  case isTrue hdeclared =>
    obtain ⟨q, hq, hqname⟩ := isSome_rest_withParameters.mp hdeclared
    rw [← hname] at hqname ⊢
    exact .refused (.duplicate hpositional hq hqname)
  case isFalse hfirst =>
    have hfresh : ∀ q ∈ ps, q.name ≠ p.name := by
      intro q hq hqname
      exact hfirst (isSome_rest_withParameters.mpr ⟨q, hq, hqname.trans hname⟩)
    have hjoins : Joins ps p :=
      .of_number?_eq_none hnumber hfresh fun hnot => absurd (hrest.symm.trans hnot) (by simp)
    have h : Attempt t ps p malformed _ := .joins hjoins
    rwa [withParameters_snoc_rest hpositional hrest (Bool.not_eq_true _ ▸ hfirst)] at h

/-- Declaring a keyword parameter. -/
theorem declareNamed_attempt (hnumber : p.number? = none) (hrest : p.isRest = false) :
    Attempt t ps p malformed
      ((t.withParameters ps).declareNamed malformed p.name p.defaults) := by
  have hpositional := isPositional_eq_false_iff.mpr hnumber
  have hkeyword := isKeyword_iff.mpr ⟨hpositional, hrest⟩
  -- a parameter of this name is a keyword too, so it is enough to look among the keywords
  have hnamed := any_named_withParameters (t := t) fun q (_ : q ∈ ps) hname =>
    (isKeyword_congr hname).trans hkeyword
  unfold declareNamed
  split
  case isTrue hused =>
    obtain ⟨q, hq, hqname⟩ := hnamed.mp hused
    exact .refused (.duplicate hpositional hq hqname)
  case isFalse hfirst =>
    cases hf : Fallback.ofDefaults? p.defaults with
    | none => exact .refused (.manyDefaults hrest (ofDefaults?_eq_none_iff.mp hf))
    | some f =>
      obtain ⟨hfew, rfl⟩ := ofDefaults?_eq_some_iff.mp hf
      have hfresh : ∀ q ∈ ps, q.name ≠ p.name := by
        intro q hq hqname
        exact hfirst (hnamed.mpr ⟨q, hq, hqname⟩)
      have hjoins : Joins ps p := .of_number?_eq_none hnumber hfresh fun _ => hfew
      have h : Attempt t ps p malformed _ := .joins hjoins
      rwa [withParameters_snoc_keyword hkeyword] at h

/-- A numeral is plain when it is written as its value prints. -/
theorem plainCount?_eq_some_iff {arg : String} {k : Nat} :
    Text.plainCount? arg = some k ↔ Text.count? arg = some k ∧ toString k = arg := by
  rw [Text.plainCount?, Option.filter_eq_some_iff, decide_eq_true_eq]

/-- **Declaring a parameter** of any kind after others. -/
theorem declareAs_attempt (t : Template) (ps : List Parameter) (p : Parameter)
    (malformed : Problem) :
    Attempt t ps p malformed
      ((t.withParameters ps).declareAs malformed p.name p.defaults) := by
  -- a name is a plain numeral, another numeral, the word for the rest, or a keyword
  unfold declareAs
  split
  case h_1 k hplain =>
    obtain ⟨hnumber, hcanonical⟩ := plainCount?_eq_some_iff.mp hplain
    exact declarePositional_attempt hnumber hcanonical
  case h_2 hplain =>
    split
    case isTrue hnumeral =>
      obtain ⟨k, hnumber⟩ := Option.isSome_iff_exists.mp hnumeral
      refine .refused (.unplain hnumber fun hcanonical => ?_)
      rw [plainCount?_eq_some_iff.mpr ⟨hnumber, hcanonical⟩] at hplain
      cases hplain
    case isFalse hnumeral =>
      have hnumber : p.number? = none := Option.not_isSome_iff_eq_none.mp hnumeral
      split
      case isTrue hrest => exact declareRest_attempt (decide_eq_true hrest)
      case isFalse hrest => exact declareNamed_attempt hnumber (decide_eq_false hrest)

/-! ### Declaring a node -/

/-- What can be wrong with how a node declares a parameter after others, and what is reported. -/
inductive Unjoined (ps : List Parameter) (n : Node) : Report → Prop where
  /-- It is not written as a parameter. -/
  | unwritten (hnone : ∀ p, ¬Written p n) :
      Unjoined ps n (.atNode (.malformedParameter n.text) n)
  /-- The parameter does not join the others. -/
  | refused {p : Parameter} {problem : Problem} (hp : Written p n)
      (hrefusal : Refusal ps p (.malformedParameter n.text) problem) :
      Unjoined ps n (.atNode problem n)

/-- What is reported of a declaration is a reason not to join. -/
theorem Unjoined.not_joins {n : Node} {report : Report} (h : Unjoined ps n report)
    (hp : Written p n) : ¬Joins ps p := by
  cases h with
  | unwritten hnone => exact absurd hp (hnone p)
  | refused hq hrefusal =>
    obtain rfl := hp.eq hq
    exact hrefusal.not_joins

/-- **A node is declared** as a parameter that joins the others, or what is wrong is reported. -/
theorem declare_cases (t : Template) (ps : List Parameter) (n : Node) :
    (∃ p, Written p n ∧ Joins ps p ∧
      (t.withParameters ps).declare n = .ok (t.withParameters (ps ++ [p]))) ∨
    ∃ report, Unjoined ps n report ∧ (t.withParameters ps).declare n = .error report := by
  unfold declare
  -- what cannot be read as a parameter is reported as it is written
  cases hread : readParameter n with
  | none =>
    refine .inr ⟨_, .unwritten fun p hp => ?_, rfl⟩
    rw [readParameter_eq_some_iff.mpr hp] at hread
    cases hread
  | some read =>
    obtain ⟨name, defaults⟩ := read
    have hp : Written { name, defaults } n := readParameter_eq_some_iff.mp hread
    have hattempt := declareAs_attempt t ps { name, defaults } (.malformedParameter n.text)
    dsimp only at hattempt ⊢
    generalize (t.withParameters ps).declareAs _ name defaults = declared at hattempt
    cases hattempt with
    | joins hjoins => exact .inl ⟨_, hp, hjoins, rfl⟩
    | refused hrefusal => exact .inr ⟨_, .refused hp hrefusal, rfl⟩

/-- A parameter that may join joins. -/
theorem declare_eq_ok {n : Node} (hp : Written p n) (hjoins : Joins ps p) :
    (t.withParameters ps).declare n = .ok (t.withParameters (ps ++ [p])) := by
  rcases declare_cases t ps n with ⟨q, hq, -, hok⟩ | ⟨report, hunjoined, -⟩
  · rwa [hp.eq hq]
  · exact absurd hjoins (hunjoined.not_joins hp)

/-! ### Declaring a list -/

/-- What can be wrong with a list of nodes that declare parameters, and what is reported: the first
    one that does not join those before it. -/
inductive Misdeclared : List Node → Report → Prop where
  | intro {ps : List Parameter} {before after : List Node} {n : Node} {report : Report}
      (hwritten : List.Forall₂ Written ps before) (hvalid : ValidAll ps)
      (hunjoined : Unjoined ps n report) :
      Misdeclared (before ++ n :: after) report

/-- What is wrong with a declaration stays wrong when others follow. -/
theorem Misdeclared.snoc {params : List Node} {report : Report} (h : Misdeclared params report)
    (n : Node) : Misdeclared (params ++ [n]) report := by
  obtain ⟨hwritten, hvalid, hunjoined⟩ := h
  rw [List.append_assoc, List.cons_append]
  exact .intro hwritten hvalid hunjoined

/-- The last parameter is declared after the others, if they have been declared. -/
theorem foldlM_declare_snoc (params : List Node) (n : Node) :
    (params ++ [n]).foldlM declare t = (params.foldlM declare t).bind fun u => u.declare n := by
  simp only [List.foldlM_append, List.foldlM_cons, List.foldlM_nil, bind_pure]
  rfl

/-- **Parameters are declared** as a list that may be declared, or the first one that does not join
    those before it is reported. -/
theorem foldlM_declare_cases (t : Template) (params : List Node) :
    (∃ ps, List.Forall₂ Written ps params ∧ ValidAll ps ∧
      params.foldlM declare (t.withParameters []) = .ok (t.withParameters ps)) ∨
    ∃ report, Misdeclared params report ∧
      params.foldlM declare (t.withParameters []) = .error report := by
  induction params using List.reverseRecOn with
  | nil => exact .inl ⟨[], .nil, validAll_nil, rfl⟩
  | append_singleton params n ih =>
    rw [foldlM_declare_snoc]
    rcases ih with ⟨ps, hwritten, hvalid, hok⟩ | ⟨report, hwrong, herror⟩
    · rw [hok]
      rcases declare_cases t ps n with ⟨p, hp, hjoins, hnext⟩ | ⟨report, hunjoined, hnext⟩
      · exact .inl ⟨ps ++ [p], List.rel_append hwritten (.cons hp .nil),
          validAll_snoc_iff.mpr ⟨hvalid, hjoins⟩, hnext⟩
      · exact .inr ⟨report, .intro hwritten hvalid hunjoined, hnext⟩
    · rw [herror]
      exact .inr ⟨report, hwrong.snoc n, rfl⟩

/-- What corresponds to the last of a list is the last of the other. -/
theorem forall₂_snoc {α β : Type} {R : α → β → Prop} {l : List α} {ns : List β} {n : β}
    (h : List.Forall₂ R l (ns ++ [n])) :
    ∃ as a, l = as ++ [a] ∧ List.Forall₂ R as ns ∧ R a n := by
  obtain ⟨a, as, ha, has, hdrop⟩ := List.forall₂_cons_right_iff.mp (List.forall₂_drop_append l _ _ h)
  rw [List.forall₂_nil_right_iff.mp has] at hdrop
  refine ⟨l.take ns.length, a, ?_, List.forall₂_take_append l _ _ h, ha⟩
  rw [← hdrop, List.take_append_drop]

/-- A list that may be declared is declared. -/
theorem foldlM_declare_eq_ok {params : List Node} (hwritten : List.Forall₂ Written ps params)
    (hvalid : ValidAll ps) :
    params.foldlM declare (t.withParameters []) = .ok (t.withParameters ps) := by
  induction params using List.reverseRecOn generalizing ps with
  | nil =>
    rw [List.forall₂_nil_right_iff.mp hwritten]
    rfl
  | append_singleton params n ih =>
    obtain ⟨before, p, rfl, hbefore, hp⟩ := forall₂_snoc hwritten
    obtain ⟨hvalid, hjoins⟩ := validAll_snoc_iff.mp hvalid
    rw [foldlM_declare_snoc, ih hbefore hvalid]
    exact declare_eq_ok hp hjoins

end Formwork.Template
