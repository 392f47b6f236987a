import Mathlib.Data.List.Forall2
import Mathlib.Data.List.Nodup
import Mathlib.Data.List.Range
import Formwork.Proofs.Substitution
import Formwork.Template.Define

namespace Formwork.Template

/-!
# Lists of parameters

Which lists of parameters a template may declare, said of the whole list, and what this asks of one
parameter after others.

* `Parameter.Written` — how a parameter is written; `Parameter.readParameter_eq_some_iff` — it is
  read so.
* `Parameter.ValidAll` — the lists that may be declared.
* `Parameter.Joins` — what a parameter has to meet after others; `Parameter.validAll_snoc_iff` — the
  lists are those of which each parameter meets it after the ones before.
-/

/-- A parameter: its name, and its defaults if it is written as a group. -/
structure Parameter where
  name : String
  defaults : Option (List Node)

namespace Parameter

/-- The number of a positional parameter. These are named by numerals. -/
def number? (p : Parameter) : Option Nat := Text.count? p.name

/-- Whether the parameter is positional. -/
def isPositional (p : Parameter) : Bool := p.number?.isSome

/-- Whether the parameter is the one for positional arguments left over. -/
def isRest (p : Parameter) : Bool := p.name = restName

/-- Whether the parameter is for a keyword argument. -/
def isKeyword (p : Parameter) : Bool := !p.isPositional && !p.isRest

/-- Whether the caller has to give the parameter: it is written alone. -/
def isMandatory (p : Parameter) : Bool := p.defaults.isNone

/-- What the parameter stands for when it is left out. -/
def fallback (p : Parameter) : Fallback :=
  match p.defaults with
  | none => .required
  | some [] => .nothing
  | some (n :: _) => .value n

/-- How a parameter is written: `@name`, alone or at the head of a group of defaults. -/
inductive Written : Parameter → Node → Prop where
  | alone {a : Atom} {name : String} (hname : name ≠ "") (ha : a.value = "@" ++ name) :
      Written { name, defaults := none } (.atom a)
  | group {d : Delim} {cs : List Node} {l stop : Location} {a : Atom} {ds : List Node}
      {name : String} (hexprs : (Node.group d cs l stop).exprs = .atom a :: ds)
      (hname : name ≠ "") (ha : a.value = "@" ++ name) :
      Written { name, defaults := some ds } (.group d cs l stop)

/-- Whether there is at most one default. -/
def FewDefaults (p : Parameter) : Prop := ∀ ds, p.defaults = some ds → ds.length ≤ 1

/-- The lists of parameters that a template may declare. -/
structure ValidAll (ps : List Parameter) : Prop where
  /-- Only the rest may have more than one default. -/
  fewDefaults : ∀ p ∈ ps, p.isRest = false → p.FewDefaults
  /-- Numerals are written as their values print, -/
  canonical : ∀ p ∈ ps, ∀ k, p.number? = some k → toString k = p.name
  /-- and count from 1 without gaps. -/
  consecutive : ps.filterMap number? = List.range' 1 (ps.countP isPositional)
  /-- Positional parameters that have to be given come before those that have not. -/
  mandatoryFirst : (ps.filter isPositional).Pairwise fun p q =>
    q.isMandatory = true → p.isMandatory = true
  /-- No keyword parameter is declared twice, nor is the rest. -/
  distinct : ((ps.filter fun p => !p.isPositional).map name).Nodup

/-- What a parameter has to meet after others. -/
structure Joins (ps : List Parameter) (p : Parameter) : Prop where
  fewDefaults : p.isRest = false → p.FewDefaults
  canonical : ∀ k, p.number? = some k → toString k = p.name
  next : ∀ k, p.number? = some k → k = ps.countP isPositional + 1
  mandatory : p.isPositional = true → p.isMandatory = true →
    ∀ q ∈ ps, q.isPositional = true → q.isMandatory = true
  fresh : p.isPositional = false → ∀ q ∈ ps, q.name ≠ p.name

/-- A list of no parameters is valid. -/
theorem validAll_nil : ValidAll [] where
  fewDefaults := by simp
  canonical := by simp
  consecutive := rfl
  mandatoryFirst := .nil
  distinct := .nil

/-- Whether a parameter is positional depends on its name only. -/
theorem isPositional_congr {p q : Parameter} (h : q.name = p.name) :
    q.isPositional = p.isPositional := by
  rw [isPositional, isPositional, number?, number?, h]

/-- The numbers still count from 1 without gaps when the one of a further parameter follows. -/
theorem consecutive_snoc_iff {ps : List Parameter} {p : Parameter} :
    (ps ++ [p]).filterMap number? = List.range' 1 ((ps ++ [p]).countP isPositional) ↔
      ps.filterMap number? = List.range' 1 (ps.countP isPositional) ∧
        ∀ k, p.number? = some k → k = ps.countP isPositional + 1 := by
  rw [List.filterMap_append, List.countP_append]
  cases hp : p.number? with
  | none => simp [isPositional, hp]
  | some k =>
    -- the parameter is positional, so both lists get longer by one number
    have hone : [p].countP isPositional = 1 := by simp [isPositional, hp]
    have hlast : [p].filterMap number? = [k] := by simp [hp]
    rw [hone, hlast, List.range'_1_concat, Nat.add_comm 1]
    constructor
    · intro h
      obtain ⟨hnumbers, hk⟩ := List.append_inj' h rfl
      refine ⟨hnumbers, fun k' hk' => ?_⟩
      rw [← Option.some.inj hk']
      exact List.singleton_injective hk
    · rintro ⟨hnumbers, hk⟩
      rw [hnumbers, hk k rfl]

/-- Positional parameters that have to be given still come first when a parameter follows. -/
theorem mandatoryFirst_snoc_iff {ps : List Parameter} {p : Parameter} :
    (((ps ++ [p]).filter isPositional).Pairwise fun p q =>
        q.isMandatory = true → p.isMandatory = true) ↔
      ((ps.filter isPositional).Pairwise fun p q =>
        q.isMandatory = true → p.isMandatory = true) ∧
      (p.isPositional = true → p.isMandatory = true →
        ∀ q ∈ ps, q.isPositional = true → q.isMandatory = true) := by
  rw [List.filter_append, List.pairwise_append]
  cases hp : p.isPositional with
  | false => simp [hp]
  | true =>
    simp only [List.filter_cons_of_pos hp, List.filter_nil, List.pairwise_singleton, true_and,
      List.mem_singleton, forall_eq, List.mem_filter, and_imp, forall_const]
    exact and_congr_right fun _ => ⟨fun h hm q hq hpos => h q hq hpos hm,
      fun h q hq hpos hm => h hm q hq hpos⟩

/-- The names of the other parameters are still distinct when a parameter follows. -/
theorem distinct_snoc_iff {ps : List Parameter} {p : Parameter} :
    (((ps ++ [p]).filter fun p => !p.isPositional).map name).Nodup ↔
      ((ps.filter fun p => !p.isPositional).map name).Nodup ∧
      (p.isPositional = false → ∀ q ∈ ps, q.name ≠ p.name) := by
  rw [List.filter_append, List.map_append, List.nodup_append]
  cases hp : p.isPositional with
  | true => simp [hp]
  | false =>
    simp only [hp, Bool.not_false, List.filter_cons_of_pos, List.filter_nil, List.map_cons,
      List.map_nil, List.nodup_singleton, true_and, List.mem_singleton, forall_eq, forall_const,
      List.mem_map, List.mem_filter, Bool.not_eq_true', forall_exists_index, and_imp]
    refine and_congr_right fun _ => ⟨fun h q hq hname => ?_, fun h name q hq _ hname => ?_⟩
    · exact h q.name q hq ((isPositional_congr hname).trans hp) rfl hname
    · rw [← hname]
      exact h q hq

/-- **One more parameter.** A list is valid exactly when it is without the last parameter, and this
    one meets what is asked of it after the others. -/
theorem validAll_snoc_iff {ps : List Parameter} {p : Parameter} :
    ValidAll (ps ++ [p]) ↔ ValidAll ps ∧ Joins ps p := by
  -- each condition on a list is one on its front and one on its last parameter
  constructor
  · intro h
    obtain ⟨hconsecutive, hnext⟩ := consecutive_snoc_iff.mp h.consecutive
    obtain ⟨hfirst, hlast⟩ := mandatoryFirst_snoc_iff.mp h.mandatoryFirst
    obtain ⟨hnames, hfresh⟩ := distinct_snoc_iff.mp h.distinct
    exact
      ⟨{ fewDefaults := (List.forall_mem_append.mp h.fewDefaults).1
         canonical := (List.forall_mem_append.mp h.canonical).1
         consecutive := hconsecutive
         mandatoryFirst := hfirst
         distinct := hnames },
       { fewDefaults := h.fewDefaults p (by simp)
         canonical := h.canonical p (by simp)
         next := hnext
         mandatory := hlast
         fresh := hfresh }⟩
  · rintro ⟨h, hp⟩
    exact
      { fewDefaults := List.forall_mem_append.mpr
          ⟨h.fewDefaults, List.forall_mem_singleton.mpr hp.fewDefaults⟩
        canonical := List.forall_mem_append.mpr
          ⟨h.canonical, List.forall_mem_singleton.mpr hp.canonical⟩
        consecutive := consecutive_snoc_iff.mpr ⟨h.consecutive, hp.next⟩
        mandatoryFirst := mandatoryFirst_snoc_iff.mpr ⟨h.mandatoryFirst, hp.mandatory⟩
        distinct := distinct_snoc_iff.mpr ⟨h.distinct, hp.fresh⟩ }

/-- The numbers of the positional parameters are those up to their count. -/
theorem ValidAll.mem_numbers_iff {ps : List Parameter} (h : ValidAll ps) {k : Nat} :
    (∃ p ∈ ps, p.number? = some k) ↔ 1 ≤ k ∧ k ≤ ps.countP isPositional := by
  rw [← List.mem_filterMap, h.consecutive, List.mem_range'_1]
  omega

/-! ### Reading a parameter -/

/-- **A parameter is read** as it is written. -/
theorem readParameter_eq_some_iff {n : Node} {name : String} {defaults : Option (List Node)} :
    readParameter n = some (name, defaults) ↔ Written { name, defaults } n := by
  constructor
  · intro h
    -- a parameter is an atom, or a group that an atom heads
    cases n with
    | comment => cases h
    | atom a =>
      obtain ⟨arg, harg, heq⟩ := Option.map_eq_some_iff.mp h
      cases heq
      obtain ⟨ha, hname⟩ := Atom.placeholder?_eq_some_iff.mp harg
      exact .alone hname ha
    | group d cs l stop =>
      obtain ⟨arg, harg, heq⟩ := Option.map_eq_some_iff.mp h
      cases heq
      obtain ⟨head, hhead, harg⟩ := Option.bind_eq_some_iff.mp harg
      obtain ⟨ds, hexprs⟩ := List.head?_eq_some_iff.mp hhead
      obtain ⟨a, ha, harg⟩ := Option.bind_eq_some_iff.mp harg
      obtain ⟨hvalue, hname⟩ := Atom.placeholder?_eq_some_iff.mp harg
      cases head with
      | atom b =>
        obtain rfl := Option.some.inj ha
        have htail : (Node.group d cs l stop).tail = ds := by
          rw [Node.tail, hexprs, List.drop_one, List.tail_cons]
        rw [htail]
        exact .group hexprs hname hvalue
      | comment => cases ha
      | group => cases ha
  · intro h
    cases h with
    | @alone a _ hname ha =>
      have harg := Atom.placeholder?_eq_some_iff.mpr ⟨ha, hname⟩
      simp only [readParameter, harg, Option.map_some]
    | @group d cs l stop a ds _ hexprs hname ha =>
      have harg := Atom.placeholder?_eq_some_iff.mpr ⟨ha, hname⟩
      simp only [readParameter, Node.head?, Node.tail, hexprs, List.head?_cons, Option.bind_some,
        Node.placeholder?, Node.atom?, harg, Option.map_some, List.drop_one, List.tail_cons]

/-- What is written is one parameter at most. -/
theorem Written.eq {p q : Parameter} {n : Node} (hp : Written p n) (hq : Written q n) : p = q := by
  obtain ⟨_, _⟩ := p
  obtain ⟨_, _⟩ := q
  have hread := readParameter_eq_some_iff.mpr hp
  rw [readParameter_eq_some_iff.mpr hq] at hread
  cases hread
  rfl

/-- What a parameter falls back on, if it does not have too many defaults. -/
theorem ofDefaults?_eq_some_iff {p : Parameter} {f : Fallback} :
    Fallback.ofDefaults? p.defaults = some f ↔ p.FewDefaults ∧ f = p.fallback := by
  obtain ⟨name, defaults⟩ := p
  match defaults with
  | none => simp [Fallback.ofDefaults?, FewDefaults, fallback, eq_comm]
  | some [] => simp [Fallback.ofDefaults?, FewDefaults, fallback, eq_comm]
  | some [n] => simp [Fallback.ofDefaults?, FewDefaults, fallback, eq_comm]
  | some (n :: m :: ns) => simp [Fallback.ofDefaults?, FewDefaults]

/-- A parameter has no fallback when it has too many defaults. -/
theorem ofDefaults?_eq_none_iff {p : Parameter} :
    Fallback.ofDefaults? p.defaults = none ↔ ¬p.FewDefaults := by
  constructor
  · intro hnone hfew
    rw [ofDefaults?_eq_some_iff.mpr ⟨hfew, rfl⟩] at hnone
    cases hnone
  · intro hmany
    rw [Option.eq_none_iff_forall_ne_some]
    exact fun f hf => hmany (ofDefaults?_eq_some_iff.mp hf).1

/-- A parameter that has to be given falls back on nothing. -/
theorem isRequired_fallback (p : Parameter) : p.fallback.isRequired = p.isMandatory := by
  obtain ⟨name, defaults⟩ := p
  match defaults with
  | none => rfl
  | some [] => rfl
  | some (n :: ns) => rfl

theorem fallback_of_isMandatory {p : Parameter} (h : p.isMandatory = true) :
    p.fallback = .required := by
  rw [fallback, Option.isNone_iff_eq_none.mp h]

/-! ### The three kinds -/

section Kinds

variable {ps : List Parameter} {p : Parameter} {k : Nat}

theorem isPositional_of_number? (h : p.number? = some k) : p.isPositional = true := by
  rw [isPositional, h]
  rfl

/-- The name of the rest is no numeral. -/
theorem number?_of_isRest (h : p.isRest = true) : p.number? = none := by
  have hname : p.name = restName := of_decide_eq_true h
  rw [number?, hname]
  decide

theorem isRest_of_number? (h : p.number? = some k) : p.isRest = false := by
  rw [← Bool.not_eq_true]
  intro hrest
  rw [number?_of_isRest hrest] at h
  cases h

/-- A keyword parameter is one that is neither positional nor the rest. -/
theorem isKeyword_iff : p.isKeyword = true ↔ p.isPositional = false ∧ p.isRest = false := by
  rw [isKeyword, Bool.and_eq_true, Bool.not_eq_true', Bool.not_eq_true']

/-- Whether a parameter is a keyword depends on its name only. -/
theorem isKeyword_congr {q : Parameter} (h : q.name = p.name) : q.isKeyword = p.isKeyword := by
  rw [isKeyword, isKeyword, isPositional_congr h, isRest, isRest, h]

theorem isPositional_eq_false_iff : p.isPositional = false ↔ p.number? = none := by
  rw [isPositional, Option.isSome_eq_false_iff, Option.isNone_iff_eq_none]

/-- A positional parameter joins others if it is the next one, and if it is not too late for it when
    it has to be given. -/
theorem Joins.of_number? (hnumber : p.number? = some k) (hcanonical : toString k = p.name)
    (hnext : k = ps.countP isPositional + 1)
    (hmandatory : p.isMandatory = true → ∀ q ∈ ps, q.isPositional = true → q.isMandatory = true)
    (hfew : p.FewDefaults) : Joins ps p where
  fewDefaults := fun _ => hfew
  canonical := by
    intro k' hk'
    rwa [← Option.some.inj (hnumber.symm.trans hk')]
  next := by
    intro k' hk'
    rwa [← Option.some.inj (hnumber.symm.trans hk')]
  mandatory := fun _ => hmandatory
  fresh := fun hnone => absurd ((isPositional_of_number? hnumber).symm.trans hnone) (by simp)

/-- Another parameter joins others if none has its name. -/
theorem Joins.of_number?_eq_none (hnumber : p.number? = none) (hfresh : ∀ q ∈ ps, q.name ≠ p.name)
    (hfew : p.isRest = false → p.FewDefaults) : Joins ps p where
  fewDefaults := hfew
  canonical := fun k hk => absurd (hnumber.symm.trans hk) (by simp)
  next := fun k hk => absurd (hnumber.symm.trans hk) (by simp)
  mandatory := fun hp =>
    absurd ((isPositional_eq_false_iff.mpr hnumber).symm.trans hp) (by simp)
  fresh := fun _ => hfresh

end Kinds

end Parameter

end Formwork.Template
