import Formwork.Proofs.Invocation
import Formwork.Proofs.Substitution
import Formwork.Proofs.Template.Parameters

namespace Formwork

/-!
# What the parameters of a template are bound to

In an invocation that its shape accepts, every declared parameter has exactly one value: what the
caller gives for it, or else what it falls back on. So no argument is lost, and none counts twice.

* `Shape.violations_eq_nil_iff` — what it means that nothing is wrong with the arguments.
* `Template.keys_bind` — the keys of the bindings are the declared names, in order.
* `Template.value?_bind_isSome_iff` — a name has a value exactly when it is declared.
* `Template.bind_exact` — what each of them is bound to.
-/

/-! ### Invocations that a shape accepts -/

namespace Invocation

/-- The value of a keyword argument is found by its key. -/
theorem argument?_eq_lookup (inv : Invocation) (key : String) :
    inv.argument? key = inv.arguments.lookup key := by
  unfold argument?
  induction inv.arguments with
  | nil => rfl
  | cons a as ih =>
    obtain ⟨k, n⟩ := a
    by_cases h : k = key
    · simp [h]
    · have hne : (key == k) = false := by simpa using Ne.symm h
      simp [h, ih, List.lookup_cons, hne]

end Invocation

namespace Shape

/-- What it means that nothing is wrong with the arguments of an invocation. -/
structure Accepts (s : Shape) (inv : Invocation) : Prop where
  given : ∀ key ∈ s.required, (inv.argument? key).isSome
  allowed : ∀ a ∈ inv.arguments, a.1 ∈ s.allowed
  enough : s.min ≤ inv.remainder.length
  notTooMany : ∀ max, s.max = some max → inv.remainder.length ≤ max

/-- **Nothing is reported** exactly when the arguments are acceptable. -/
theorem violations_eq_nil_iff {s : Shape} {inv : Invocation} :
    s.violations inv = [] ↔ s.Accepts inv := by
  have hmissing : s.missing inv = [] ↔ ∀ key ∈ s.required, (inv.argument? key).isSome := by
    simp [missing, List.filter_eq_nil_iff, Option.isSome_iff_ne_none]
  have hunexpected : s.unexpected inv = [] ↔ ∀ a ∈ inv.arguments, a.1 ∈ s.allowed := by
    simp [unexpected, List.filter_eq_nil_iff]
  have htooFew : s.tooFew inv = [] ↔ s.min ≤ inv.remainder.length := by
    simp [tooFew]
  have htooMany :
      s.tooMany inv = [] ↔ ∀ max, s.max = some max → inv.remainder.length ≤ max := by
    unfold tooMany
    cases s.max with
    | none => simp
    | some max => simp
  unfold violations
  simp only [List.append_eq_nil_iff, hmissing, hunexpected, htooFew, htooMany]
  constructor
  · rintro ⟨⟨⟨hgiven, hallowed⟩, henough⟩, hmost⟩
    exact ⟨hgiven, hallowed, henough, hmost⟩
  · rintro ⟨hgiven, hallowed, henough, hmost⟩
    exact ⟨⟨⟨hgiven, hallowed⟩, henough⟩, hmost⟩

end Shape

/-- In a list whose keys differ, each entry is found by its key. -/
theorem lookup_of_mem {α : Type} {entries : List (String × α)}
    (hkeys : (entries.map Prod.fst).Nodup) {key : String} {a : α} (h : (key, a) ∈ entries) :
    entries.lookup key = some a := by
  induction entries with
  | nil => cases h
  | cons e es ih =>
    obtain ⟨k, b⟩ := e
    obtain ⟨hfresh, hkeys⟩ := List.nodup_cons.mp hkeys
    rcases List.mem_cons.mp h with heq | hmem
    · cases heq
      exact List.lookup_cons_self
    · have hne : (key == k) = false := by
        have hkey : key ∈ es.map Prod.fst := List.mem_map_of_mem hmem
        exact beq_eq_false_iff_ne.mpr fun heq => hfresh (heq ▸ hkey)
      rw [List.lookup_cons, hne]
      exact ih hkeys hmem

/-- The first values of a list, one by one. -/
theorem flatMap_range_getElem? {α : Type} (l : List α) (n : Nat) :
    ((List.range n).flatMap fun i => (l[i]?).toList) = l.take n := by
  induction n with
  | zero => rfl
  | succ n ih =>
    rw [List.range_succ, List.flatMap_append, ih, List.flatMap_singleton, List.take_add_one]

namespace Template

/-! ### Every parameter has a value -/

/-- What a parameter is bound to: what is given for it, or else what it falls back on. -/
def settled (given : Option Node) (f : Fallback) : Option (List Node) :=
  (given.map fun n => [n]).or f.bound?

/-- A parameter has a value if it is given whenever it has to be. -/
theorem exists_settled {given : Option Node} {f : Fallback}
    (h : f.isRequired = true → given.isSome) : ∃ ns, settled given f = some ns := by
  cases given with
  | some n => exact ⟨[n], rfl⟩
  | none =>
    cases f with
    | required => cases h rfl
    | nothing => exact ⟨[], rfl⟩
    | value n => exact ⟨[n], rfl⟩

variable {t : Template} {inv : Invocation}

/-- An invocation that is accepted settles every keyword parameter. -/
theorem exists_settled_named (h : t.shape.Accepts inv) {p : String × Fallback} (hp : p ∈ t.named) :
    ∃ ns, settled (inv.arguments.lookup p.1) p.2 = some ns := by
  refine exists_settled fun hrequired => ?_
  rw [← inv.argument?_eq_lookup]
  exact h.given p.1 (List.mem_map_of_mem (List.mem_filter.mpr ⟨hp, hrequired⟩))

/-- The parameters that have to be given come first, so enough arguments are enough for them. -/
theorem exists_settled_positional (ht : t.Ordered) (h : t.shape.Accepts inv) {i : Nat}
    {f : Fallback} (hf : t.positional[i]? = some f) :
    ∃ ns, settled inv.remainder[i]? f = some ns := by
  refine exists_settled fun hrequired => ?_
  have hlt : i < inv.remainder.length := Nat.lt_of_lt_of_le (ht.lt_countP hf hrequired) h.enough
  rw [List.getElem?_eq_getElem hlt]
  rfl

/-! ### The bindings -/

/-- A keyword parameter is bound under its name to what settles it. -/
theorem mem_bindNamed {arguments : List (String × Node)} {name : String} {f : Fallback}
    {ns : List Node} (hp : (name, f) ∈ t.named)
    (hns : settled (arguments.lookup name) f = some ns) : (name, ns) ∈ t.bindNamed arguments :=
  List.mem_filterMap.mpr ⟨(name, f), hp, Option.map_eq_some_iff.mpr ⟨ns, hns, rfl⟩⟩

/-- The keys of the keyword parameters are their names, as all of them are settled. -/
theorem keys_bindNamed {arguments : List (String × Node)}
    (h : ∀ p ∈ t.named, ∃ ns, settled (arguments.lookup p.1) p.2 = some ns) :
    (t.bindNamed arguments).map Prod.fst = t.named.map Prod.fst := by
  unfold bindNamed
  rw [List.map_filterMap, ← List.filterMap_eq_map]
  apply List.filterMap_congr
  intro p hp
  obtain ⟨ns, hns⟩ := h p hp
  have hns : ((arguments.lookup p.1).map fun n => [n]).or p.2.bound? = some ns := hns
  simp [hns]

/-- A positional parameter is bound under its numeral to what settles it. -/
theorem mem_bindPositional (number : Nat) {fs : List Fallback} {ns : List Node} {i : Nat}
    {f : Fallback} {v : List Node} (hf : fs[i]? = some f) (hv : settled ns[i]? f = some v) :
    (toString (number + i), v) ∈ bindPositional number fs ns := by
  induction fs generalizing number ns i with
  | nil => cases hf
  | cons g fs ih =>
    cases i with
    | zero =>
      cases hf
      refine List.mem_append_left _ (List.mem_map.mpr ⟨v, Option.mem_toList.mpr ?_, rfl⟩)
      rwa [List.head?_eq_getElem?]
    | succ i =>
      rw [← List.getElem?_tail] at hv
      refine List.mem_append_right _ ?_
      rw [← Nat.add_assoc, Nat.add_right_comm]
      exact ih (number + 1) hf hv

/-- The keys of the positional parameters are numerals, from the first number on. -/
theorem keys_bindPositional (number : Nat) {fs : List Fallback} {ns : List Node}
    (h : ∀ (i : Nat) f, fs[i]? = some f → ∃ v, settled ns[i]? f = some v) :
    (bindPositional number fs ns).map Prod.fst = (List.range' number fs.length).map toString := by
  induction fs generalizing number ns with
  | nil => rfl
  | cons f fs ih =>
    obtain ⟨v, hv⟩ := h 0 f rfl
    have hv : (ns.head?.map fun n => [n]).or f.bound? = some v := by
      rw [List.head?_eq_getElem?]
      exact hv
    have htail : ∀ (i : Nat) g, fs[i]? = some g → ∃ v, settled ns.tail[i]? g = some v := by
      intro i g hg
      rw [List.getElem?_tail]
      exact h (i + 1) g hg
    rw [bindPositional, hv, List.map_append, ih (number + 1) htail, List.length_cons,
      List.range'_succ]
    rfl

/-- The rest has a key if it is declared. -/
theorem keys_bindRest (remainder : List Node) :
    (t.bindRest remainder).map Prod.fst = if t.rest.isSome then [restName] else [] := by
  unfold bindRest
  cases t.rest <;> rfl

/-- **The keys of the bindings** are the names of the keyword parameters, the numerals of the
    positional ones, and the name of the rest if it is declared. -/
theorem keys_bind (ht : t.Ordered) (h : t.shape.Accepts inv) :
    (t.bind inv).map Prod.fst
      = t.named.map Prod.fst ++ (List.range' 1 t.positional.length).map toString
        ++ if t.rest.isSome then [restName] else [] := by
  unfold bind
  rw [List.map_append, List.map_append, keys_bindRest,
    keys_bindNamed fun p hp => exists_settled_named h hp,
    keys_bindPositional 1 fun i f hf => exists_settled_positional ht h hf]

theorem mem_numerals {key : String} {count : Nat} :
    key ∈ (List.range' 1 count).map toString ↔ ∃ i < count, key = toString (i + 1) := by
  rw [List.mem_map]
  constructor
  · rintro ⟨j, hj, rfl⟩
    obtain ⟨i, hi, rfl⟩ := List.mem_range'.mp hj
    exact ⟨i, hi, by rw [Nat.one_mul, Nat.add_comm]⟩
  · rintro ⟨i, hi, rfl⟩
    exact ⟨i + 1, List.mem_range'.mpr ⟨i, hi, by rw [Nat.one_mul, Nat.add_comm]⟩, rfl⟩

/-- They are all different. -/
theorem nodup_keys_bind (ht : t.Ordered) (h : t.shape.Accepts inv) :
    ((t.bind inv).map Prod.fst).Nodup := by
  -- a numeral says how it was counted, so no two places have the same one
  have hnumerals : ((List.range' 1 t.positional.length).map toString).Nodup := by
    rw [List.range'_eq_map_range, List.map_map]
    refine List.nodup_range.map_on fun i hi j hj hsame => ?_
    simp only [Function.comp_apply, Nat.add_comm 1] at hsame
    exact ht.toString_inj (List.mem_range.mp hi) (List.mem_range.mp hj) hsame
  have hrest : (if t.rest.isSome then [restName] else []).Nodup := by
    split
    · exact List.nodup_singleton _
    · exact List.nodup_nil
  have hrestName : ∀ key ∈ (if t.rest.isSome then [restName] else []), key = restName := by
    intro key hkey
    split at hkey
    · exact List.mem_singleton.mp hkey
    · cases hkey
  rw [keys_bind ht h, List.nodup_append, List.nodup_append]
  -- the three sorts of keys are disjoint: no keyword parameter is a numeral or named as the rest is
  refine ⟨⟨ht.distinct, hnumerals, ?_⟩, hrest, ?_⟩
  · intro name hname key hkey
    obtain ⟨p, hp, rfl⟩ := List.mem_map.mp hname
    obtain ⟨i, hi, rfl⟩ := mem_numerals.mp hkey
    exact ht.toString_ne_of_mem_named hi hp
  · intro key hkey last hlast
    rw [hrestName last hlast]
    rcases List.mem_append.mp hkey with hkey | hkey
    · obtain ⟨p, hp, rfl⟩ := List.mem_map.mp hkey
      exact ht.notRest p hp
    · obtain ⟨i, hi, rfl⟩ := mem_numerals.mp hkey
      exact ht.toString_ne_restName hi

/-! ### The value of a name -/

/-- As the keys are distinct, what is bound under a key is its value. -/
theorem value?_bind_of_mem (ht : t.Ordered) (h : t.shape.Accepts inv) {key : String}
    {ns : List Node} (hmem : (key, ns) ∈ t.bind inv) : (t.bind inv).value? key = some ns :=
  lookup_of_mem (nodup_keys_bind ht h) hmem

/-- A keyword parameter has what is given under its name, or else what it falls back on. -/
theorem value?_bind_named (ht : t.Ordered) (h : t.shape.Accepts inv) {name : String}
    {f : Fallback} (hp : (name, f) ∈ t.named) :
    (t.bind inv).value? name = settled (inv.arguments.lookup name) f := by
  obtain ⟨ns, hns⟩ := exists_settled_named h hp
  rw [hns]
  exact value?_bind_of_mem ht h
    (List.mem_append_left _ (List.mem_append_left _ (mem_bindNamed hp hns)))

/-- A positional parameter has what is given in its place, or else what it falls back on. -/
theorem value?_bind_positional (ht : t.Ordered) (h : t.shape.Accepts inv) {i : Nat} {f : Fallback}
    (hf : t.positional[i]? = some f) :
    (t.bind inv).value? (toString (i + 1)) = settled inv.remainder[i]? f := by
  obtain ⟨ns, hns⟩ := exists_settled_positional ht h hf
  rw [hns, Nat.add_comm]
  exact value?_bind_of_mem ht h
    (List.mem_append_left _ (List.mem_append_right _ (mem_bindPositional 1 hf hns)))

/-- The rest has what is left over, or else its defaults. -/
theorem value?_bind_rest (ht : t.Ordered) (h : t.shape.Accepts inv) {defaults : List Node}
    (hrest : t.rest = some defaults) :
    (t.bind inv).value? restName
      = some (if (inv.remainder.drop t.positional.length).isEmpty then defaults
          else inv.remainder.drop t.positional.length) := by
  refine value?_bind_of_mem ht h (List.mem_append_right _ ?_)
  simp only [bindRest, hrest]
  exact List.mem_singleton_self _

/-- Numerals are declared as far as there are positional parameters. -/
theorem declares_toString (ht : t.Ordered) {i : Nat} (hi : i < t.positional.length) :
    t.declares (toString (i + 1)) = true := by
  unfold declares
  rw [ht.numbered i hi]
  simpa using Nat.succ_le_of_lt hi

/-- A name that is declared is that of a keyword parameter, the numeral of a positional one, or the
    name of the rest. -/
theorem declares_iff (ht : t.Ordered) (key : String) :
    t.declares key = true ↔ key ∈ t.named.map Prod.fst ∨
      (∃ i < t.positional.length, key = toString (i + 1)) ∨ key = restName ∧ t.rest.isSome := by
  constructor
  · intro hdeclares
    -- a name is looked up as a numeral first, then as the name of the rest, and last among the
    -- keywords
    unfold declares at hdeclares
    split at hdeclares
    case h_1 index hindex =>
      simp only [Bool.and_eq_true, decide_eq_true_eq] at hdeclares
      refine .inr (.inl ⟨index - 1, by omega, ?_⟩)
      rw [Nat.sub_add_cancel hdeclares.1, (plainCount?_eq_some_iff.mp hindex).2]
    case h_2 hnumber =>
      split at hdeclares
      case isTrue hrest => exact .inr (.inr ⟨hrest, hdeclares⟩)
      case isFalse hrest =>
        obtain ⟨p, hp, hname⟩ := List.any_eq_true.mp hdeclares
        exact .inl (List.mem_map.mpr ⟨p, hp, of_decide_eq_true hname⟩)
  · rintro (hnamed | ⟨i, hi, rfl⟩ | ⟨rfl, hrest⟩)
    · obtain ⟨p, hp, rfl⟩ := List.mem_map.mp hnamed
      unfold declares
      rw [ht.unnumbered p hp]
      simp only [if_neg (ht.notRest p hp)]
      exact List.any_eq_true.mpr ⟨p, hp, decide_eq_true rfl⟩
    · exact declares_toString ht hi
    · have hnumber : Text.plainCount? restName = none := by decide
      unfold declares
      rw [hnumber]
      simpa using hrest

/-- **A name has a value** exactly when it is declared. -/
theorem value?_bind_isSome_iff (ht : t.Ordered) (h : t.shape.Accepts inv) (key : String) :
    ((t.bind inv).value? key).isSome ↔ t.declares key = true := by
  have hlookup : ((t.bind inv).value? key).isSome ↔ key ∈ (t.bind inv).map Prod.fst := by
    unfold Bindings.value?
    rw [List.lookup_isSome_iff, List.mem_map]
    exact exists_congr fun p => and_congr_right' (beq_iff_eq.trans eq_comm)
  rw [hlookup, keys_bind ht h, declares_iff ht, List.mem_append, List.mem_append, or_assoc]
  refine or_congr_right (or_congr mem_numerals ?_)
  cases t.rest <;> simp

/-! ### Nothing is lost -/

/-- The positional arguments as they are bound: what the numerals of those that are supplied stand
    for, and what the rest stands for if anything is left over for it. -/
def regathered (t : Template) (inv : Invocation) : List Node :=
  let valueOf (key : String) : List Node := ((t.bind inv).value? key).getD []
  let supplied := List.range (min t.positional.length inv.remainder.length)
  supplied.flatMap (fun i => valueOf (toString (i + 1)))
    ++ if t.positional.length < inv.remainder.length then valueOf restName else []

/-- What is left over goes to the rest, which is declared then. -/
theorem value?_bind_leftover (ht : t.Ordered) (h : t.shape.Accepts inv)
    (hmore : t.positional.length < inv.remainder.length) :
    t.rest.isSome ∧
      (t.bind inv).value? restName = some (inv.remainder.drop t.positional.length) := by
  cases hrest : t.rest with
  | none =>
    have hmax := h.notTooMany t.positional.length (by simp [shape, hrest])
    omega
  | some defaults =>
    have hleftover : (inv.remainder.drop t.positional.length).isEmpty = false := by
      rw [List.isEmpty_eq_false_iff, ne_eq, List.drop_eq_nil_iff]
      exact Nat.not_le_of_lt hmore
    refine ⟨rfl, ?_⟩
    rw [value?_bind_rest ht h hrest, hleftover]
    rfl

/-- **Nothing is lost** of the positional arguments, and nothing counts twice. -/
theorem regathered_eq (ht : t.Ordered) (h : t.shape.Accepts inv) :
    t.regathered inv = inv.remainder := by
  -- below both lengths every numeral is bound to the argument in its place
  have hsupplied : ∀ i ∈ List.range (min t.positional.length inv.remainder.length),
      ((t.bind inv).value? (toString (i + 1))).getD [] = (inv.remainder[i]?).toList := by
    intro i hi
    rw [List.mem_range, Nat.lt_min] at hi
    obtain ⟨hparameter, hargument⟩ := hi
    rw [value?_bind_positional ht h (List.getElem?_eq_getElem hparameter),
      List.getElem?_eq_getElem hargument]
    rfl
  unfold regathered
  simp only
  rw [List.flatMap_congr hsupplied, flatMap_range_getElem?]
  split
  -- with too many arguments the rest holds the others, with enough or too few there are none
  case isTrue hmore =>
    rw [(value?_bind_leftover ht h hmore).2, Nat.min_eq_left (Nat.le_of_lt hmore)]
    exact List.take_append_drop _ _
  case isFalse hfew =>
    rw [List.append_nil, Nat.min_eq_right (Nat.le_of_not_lt hfew), List.take_length]

/-! ### What each parameter is bound to -/

/-- What binding the arguments of an invocation to the parameters of a template comes to. -/
structure BindsExactly (t : Template) (inv : Invocation) : Prop where
  /-- The keys are the names of the keyword parameters, the numerals of the positional ones, and the
      name of the rest if it is declared; -/
  keys : (t.bind inv).map Prod.fst
    = t.named.map Prod.fst ++ (List.range' 1 t.positional.length).map toString
      ++ if t.rest.isSome then [restName] else []
  /-- and each of them is bound once. -/
  once : ((t.bind inv).map Prod.fst).Nodup
  /-- So a name has a value exactly when the template declares it. -/
  declared : ∀ key, ((t.bind inv).value? key).isSome ↔ t.declares key = true
  /-- A keyword argument is bound under its own name, -/
  keyword : ∀ key n, inv.argument? key = some n → (t.bind inv).value? key = some [n]
  /-- which says it of all of them when their keys differ, -/
  keywords : (inv.arguments.map Prod.fst).Nodup →
    ∀ a ∈ inv.arguments, (t.bind inv).value? a.1 = some [a.2]
  /-- as they do whenever the invocation was read. -/
  differ : ∀ call, Invocation.ofNode call = .ok inv → (inv.arguments.map Prod.fst).Nodup
  /-- A keyword parameter that is left out is bound to its fallback. -/
  keywordLeft : ∀ name f, (name, f) ∈ t.named → inv.argument? name = none →
    ∃ ns, f.bound? = some ns ∧ (t.bind inv).value? name = some ns
  /-- A positional argument is bound under its numeral, -/
  positional : ∀ i < t.positional.length, ∀ n, inv.remainder[i]? = some n →
    (t.bind inv).value? (toString (i + 1)) = some [n]
  /-- and a positional parameter that is left out is bound to its fallback. -/
  positionalLeft : ∀ (i : Nat) f, t.positional[i]? = some f → inv.remainder[i]? = none →
    ∃ ns, f.bound? = some ns ∧ (t.bind inv).value? (toString (i + 1)) = some ns
  /-- All further positional arguments are bound to the rest, which is declared then. -/
  rest : t.positional.length < inv.remainder.length →
    t.rest.isSome ∧ (t.bind inv).value? restName = some (inv.remainder.drop t.positional.length)
  /-- When there are none, the rest is bound to its defaults. -/
  restLeft : ∀ defaults, t.rest = some defaults →
    inv.remainder.length ≤ t.positional.length → (t.bind inv).value? restName = some defaults
  /-- What is bound of the positional arguments is all of them, in order. -/
  remainder : t.regathered inv = inv.remainder

/-- **Arguments are neither lost nor counted twice.** For every template that is read and every
    invocation that its shape accepts, each argument is bound under its own name, numeral or the
    rest, each parameter that is left out is bound to its fallback, and nothing else is bound. -/
theorem bind_exact {definition : Node} {reports : List Report}
    (hdefine : define definition = .ok (t, reports)) (haccepted : t.shape.violations inv = []) :
    t.BindsExactly inv := by
  obtain ⟨ht, -⟩ := ordered_of_define hdefine
  have h := Shape.violations_eq_nil_iff.mp haccepted
  have hkeyword : ∀ key n, inv.argument? key = some n → (t.bind inv).value? key = some [n] := by
    intro key n hgiven
    rw [inv.argument?_eq_lookup] at hgiven
    obtain ⟨p, hp, rfl⟩ := List.mem_map.mp (h.allowed (key, n) (mem_of_lookup hgiven))
    rw [value?_bind_named ht h hp, hgiven]
    rfl
  refine
    { keys := keys_bind ht h
      once := nodup_keys_bind ht h
      declared := value?_bind_isSome_iff ht h
      keyword := hkeyword
      keywords := ?_
      differ := fun _ hread => Invocation.nodup_keys_of_ofNode hread
      keywordLeft := ?_
      positional := ?_
      positionalLeft := ?_
      rest := value?_bind_leftover ht h
      restLeft := ?_
      remainder := regathered_eq ht h }
  · intro hkeys a ha
    refine hkeyword a.1 a.2 ?_
    rw [inv.argument?_eq_lookup]
    exact lookup_of_mem hkeys ha
  · intro name f hp hleft
    obtain ⟨ns, hns⟩ := exists_settled_named h hp
    have hvalue := value?_bind_named ht h hp
    rw [inv.argument?_eq_lookup] at hleft
    rw [hleft] at hns hvalue
    exact ⟨ns, hns, hvalue.trans hns⟩
  · intro i hi n hn
    rw [value?_bind_positional ht h (List.getElem?_eq_getElem hi), hn]
    rfl
  · intro i f hf hleft
    obtain ⟨ns, hns⟩ := exists_settled_positional ht h hf
    have hvalue := value?_bind_positional ht h hf
    rw [hleft] at hns hvalue
    exact ⟨ns, hns, hvalue.trans hns⟩
  · intro defaults hrest hfew
    have hnothing : (inv.remainder.drop t.positional.length).isEmpty = true := by
      rw [List.isEmpty_iff, List.drop_eq_nil_iff]
      exact hfew
    rw [value?_bind_rest ht h hrest, if_pos hnothing]

/-! ### Every form of parameter -/

/-- An atom, at no place in particular. -/
def word (value : String) : Node := .atom (Atom.plain value .nowhere)

/-- A group, at no place in particular. -/
def words (ns : List Node) : Node := .group .paren ns .nowhere .nowhere

/-- A template with every form of parameter. -/
def everyForm : Template where
  name := "t"
  location := .nowhere
  body := [words [word "@a", word "@b", word "@c", word "@1", word "@2", word "@rest"]]
  named := [("a", .required), ("b", .value (word "1")), ("c", .nothing)]
  positional := [.required, .value (word "two")]
  rest := some [word "r", word "s"]

/-- How it is written. -/
def everyFormDefinition : Node :=
  words
    ([word "template", word "t",
      words [word "@a", words [word "@b", word "1"], words [word "@c"], word "@1",
        words [word "@2", word "two"], words [word "@rest", word "r", word "s"]]]
      ++ everyForm.body)

/-- An invocation of it that leaves out one keyword argument, and gives one positional argument
    more than there are parameters for. -/
def everyFormCall : Invocation where
  name := "t"
  node := words [word "t", word "a:", word "A", word "c:", word "C", word "x", word "y", word "@z"]
  arguments := [("a", word "A"), ("c", word "C")]
  remainder := [word "x", word "y", word "@z"]

theorem bind_exact_everyForm :
    define everyFormDefinition = .ok (everyForm, []) ∧
      everyForm.shape.violations everyFormCall = [] ∧
      Invocation.ofNode everyFormCall.node = .ok everyFormCall ∧
      everyForm.BindsExactly everyFormCall ∧
      (everyForm.bind everyFormCall).value? "b" = some [word "1"] ∧
      (everyForm.bind everyFormCall).value? "c" = some [word "C"] ∧
      (everyForm.bind everyFormCall).value? "2" = some [word "y"] ∧
      (everyForm.bind everyFormCall).value? "rest" = some [word "@z"] := by
  have hdefine : define everyFormDefinition = .ok (everyForm, []) := by rfl
  have haccepted : everyForm.shape.violations everyFormCall = [] := by rfl
  have hexact := bind_exact hdefine haccepted
  refine ⟨hdefine, haccepted, by rfl, hexact, ?_, hexact.keyword "c" _ rfl,
    hexact.positional 1 (by decide) _ rfl, (hexact.rest (by decide)).2⟩
  obtain ⟨ns, hns, hvalue⟩ :=
    hexact.keywordLeft "b" (.value (word "1")) (by simp [everyForm]) rfl
  rw [hvalue, ← hns]
  rfl

end Template

end Formwork
