import Mathlib.Data.List.Pairwise
import Formwork.Resolver

namespace Formwork

/-!
# What is in sight

Looking an identifier up along a path gives the fitting definition of the innermost block that has
one. Blocks are numbered as they open, so along a path the innermost block has the greatest number,
and "nearest" can be said without going through the path.

* `Resolver.Sound` — what holds of a resolver after every call.
* `Resolver.Sound.nearest_iff` — what is found is the fitting definition in the block with the
  greatest number.
* `Resolver.met?_add` — a requirement that nothing in sight met before is met by a new definition
  exactly when that one fits and lies around it.
-/

variable {κ ν τ : Type} [Kind κ]

/-- Whether a definition meets a requirement: it has the identifier, its kind fits, and it lies in
    the block of the requirement or in one around it. -/
def Requirement.MetBy (q : Requirement κ τ) (d : Definition κ ν) : Prop :=
  q.id = d.id ∧ d.block ∈ q.path ∧ Kind.accepts q.kind d.kind = true

instance (q : Requirement κ τ) (d : Definition κ ν) : Decidable (q.MetBy d) :=
  inferInstanceAs (Decidable (_ ∧ _ ∧ _))

namespace Resolver

/-- What holds of a resolver after every call: the open blocks have decreasing numbers, all of them
    used up; no block holds two definitions of an identifier, and no requirement waits for what is
    in sight. -/
structure Sound (r : Resolver κ ν τ) : Prop where
  innermostFirst : r.path.Pairwise (· > ·)
  numbered : ∀ n ∈ r.path, n < r.next
  single : r.definitions.Pairwise fun d e => ¬(d.block = e.block ∧ d.id = e.id)
  unmet : ∀ q ∈ r.waiting, r.lookup q.path q.id q.kind = none

omit [Kind κ] in
/-- A definition that is found in a block is one of the block. -/
theorem of_definition?_eq_some {r : Resolver κ ν τ} {id : String} {block : Nat}
    {d : Definition κ ν} (h : r.definition? id block = some d) :
    d ∈ r.definitions ∧ d.block = block ∧ d.id = id := by
  have hmem := List.mem_of_find?_eq_some h
  have hd := List.find?_some h
  simp only [Bool.and_eq_true, decide_eq_true_eq] at hd
  exact ⟨hmem, hd⟩

/-- When no block holds two definitions of an identifier, each definition is found in its block. -/
theorem Sound.definition?_eq_some {r : Resolver κ ν τ} (h : r.Sound) {d : Definition κ ν}
    (hd : d ∈ r.definitions) : r.definition? d.id d.block = some d := by
  cases hf : r.definition? d.id d.block with
  | none =>
    have hnone := List.find?_eq_none.mp hf d hd
    simp at hnone
  | some e =>
    obtain ⟨he, hblock, hid⟩ := of_definition?_eq_some hf
    have : Std.Symm fun x y : Definition κ ν => ¬(x.block = y.block ∧ x.id = y.id) :=
      ⟨fun _ _ hxy hyx => hxy ⟨hyx.1.symm, hyx.2.symm⟩⟩
    by_contra hne
    have hne : e ≠ d := fun heq => hne (by rw [heq])
    exact h.single.forall he hd hne ⟨hblock, hid⟩

/-! ### Looking up -/

/-- Looking up goes by the definition of the first block, if that fits, and on from there. -/
theorem lookup_cons (r : Resolver κ ν τ) (block : Nat) (path : List Nat) (id : String) (kind : κ) :
    r.lookup (block :: path) id kind
      = (((r.definition? id block).filter fun d => Kind.accepts kind d.kind).map
          Definition.value).or (r.lookup path id kind) := by
  unfold lookup visible
  rw [List.filterMap_cons]
  cases hd : r.definition? id block with
  | none => rfl
  | some d =>
    rw [List.find?_cons]
    cases hk : Kind.accepts kind d.kind with
    | true => rw [Option.filter_some_pos (by exact hk)]; rfl
    | false => rw [Option.filter_some_neg (by simp [hk])]; rfl

/-- Nothing is found exactly when no definition along the path fits. -/
theorem Sound.lookup_eq_none_iff {r : Resolver κ ν τ} (h : r.Sound) {path : List Nat} {id : String}
    {kind : κ} :
    r.lookup path id kind = none ↔
      ∀ d ∈ r.definitions, d.block ∈ path → d.id = id → Kind.accepts kind d.kind = false := by
  unfold lookup visible
  rw [Option.map_eq_none_iff, List.find?_eq_none]
  constructor
  · intro hnone d hd hpath hid
    have hvisible : d ∈ path.filterMap (r.definition? id) :=
      List.mem_filterMap.mpr ⟨d.block, hpath, hid ▸ h.definition?_eq_some hd⟩
    simpa using hnone d hvisible
  · intro hall d hd
    obtain ⟨block, hblock, hfound⟩ := List.mem_filterMap.mp hd
    obtain ⟨hmem, rfl, hid⟩ := of_definition?_eq_some hfound
    simp [hall d hmem hblock hid]

/-- What is found along a path is the fitting definition in the block with the greatest number. -/
theorem Sound.lookup_eq_some_iff {r : Resolver κ ν τ} (h : r.Sound) {path : List Nat}
    (hpath : path.Pairwise (· > ·)) {id : String} {kind : κ} {v : ν} :
    r.lookup path id kind = some v ↔
      ∃ d ∈ r.definitions, d.block ∈ path ∧ d.id = id ∧ Kind.accepts kind d.kind = true ∧
        d.value = v ∧ ∀ e ∈ r.definitions, e.block ∈ path → e.id = id →
          Kind.accepts kind e.kind = true → e.block ≤ d.block := by
  induction path with
  | nil => simp [lookup, visible]
  | cons block path ih =>
    rw [List.pairwise_cons] at hpath
    obtain ⟨hfirst, hrest⟩ := hpath
    rw [lookup_cons]
    cases hf : (r.definition? id block).filter fun d => Kind.accepts kind d.kind with
    | some d =>
      -- the innermost block decides, and no other block of the path has a greater number
      obtain ⟨hd, hk⟩ := Option.filter_eq_some_iff.mp hf
      obtain ⟨hmem, rfl, hid⟩ := of_definition?_eq_some hd
      have hgreatest : ∀ e ∈ r.definitions, e.block ∈ d.block :: path → e.block ≤ d.block := by
        intro e _ he
        obtain heq | he := List.mem_cons.mp he
        · exact Nat.le_of_eq heq
        · exact Nat.le_of_lt (hfirst _ he)
      simp only [Option.map_some, Option.some_or, Option.some.injEq]
      constructor
      · rintro rfl
        exact ⟨d, hmem, List.mem_cons_self, hid, hk, rfl, fun e he hpe _ _ => hgreatest e he hpe⟩
      · rintro ⟨e, he, hpe, heid, -, hev, hmax⟩
        have hle := hmax d hmem List.mem_cons_self hid hk
        have heq : e.block = d.block := Nat.le_antisymm (hgreatest e he hpe) hle
        have hsame := h.definition?_eq_some he
        rw [heid, heq, hd] at hsame
        rw [← hev, Option.some.inj hsame]
    | none =>
      -- nothing in the innermost block fits
      have hskip : ∀ e ∈ r.definitions, e.id = id → Kind.accepts kind e.kind = true →
          e.block ≠ block := by
        rintro e he rfl hk rfl
        rw [h.definition?_eq_some he] at hf
        simp [hk] at hf
      have hin : ∀ e ∈ r.definitions, e.id = id → Kind.accepts kind e.kind = true →
          (e.block ∈ block :: path ↔ e.block ∈ path) := by
        intro e he hid hk
        rw [List.mem_cons, or_iff_right (hskip e he hid hk)]
      rw [Option.map_none, Option.none_or, ih hrest]
      constructor
      · rintro ⟨d, hd, hpd, hid, hk, hv, hmax⟩
        exact ⟨d, hd, (hin d hd hid hk).mpr hpd, hid, hk, hv,
          fun e he hpe heid hek => hmax e he ((hin e he heid hek).mp hpe) heid hek⟩
      · rintro ⟨d, hd, hpd, hid, hk, hv, hmax⟩
        exact ⟨d, hd, (hin d hd hid hk).mp hpd, hid, hk, hv,
          fun e he hpe heid hek => hmax e he ((hin e he heid hek).mpr hpe) heid hek⟩

/-- Nothing is found for a requirement exactly when no definition meets it. -/
theorem Sound.unmet_iff {r : Resolver κ ν τ} (h : r.Sound) (q : Requirement κ τ) :
    r.lookup q.path q.id q.kind = none ↔ ∀ d ∈ r.definitions, ¬q.MetBy d := by
  rw [h.lookup_eq_none_iff]
  constructor
  · rintro hnone d hd ⟨hid, hpath, hk⟩
    simp [hnone d hd hpath hid.symm] at hk
  · intro hnone d hd hpath hid
    exact Bool.eq_false_iff.mpr fun hk => hnone d hd ⟨hid.symm, hpath, hk⟩

/-- **The nearest definition.** What is found for a requirement is, of the definitions that meet it,
    the one in the block with the greatest number. -/
theorem Sound.nearest_iff {r : Resolver κ ν τ} (h : r.Sound) {q : Requirement κ τ}
    (hpath : q.path.Pairwise (· > ·)) {v : ν} :
    r.lookup q.path q.id q.kind = some v ↔
      ∃ d ∈ r.definitions, q.MetBy d ∧ d.value = v ∧
        ∀ e ∈ r.definitions, q.MetBy e → e.block ≤ d.block := by
  rw [h.lookup_eq_some_iff hpath]
  constructor
  · rintro ⟨d, hd, hblock, hid, hk, hv, hmax⟩
    exact ⟨d, hd, ⟨hid.symm, hblock, hk⟩, hv,
      fun e he ⟨heid, heblock, hek⟩ => hmax e he heblock heid.symm hek⟩
  · rintro ⟨d, hd, ⟨hid, hblock, hk⟩, hv, hmax⟩
    exact ⟨d, hd, hblock, hid.symm, hk, hv,
      fun e he heblock heid hek => hmax e he ⟨heid.symm, heblock, hek⟩⟩

/-! ### A new definition -/

/-- The resolver with one definition more. -/
def add (r : Resolver κ ν τ) (d : Definition κ ν) : Resolver κ ν τ :=
  { r with definitions := r.definitions ++ [d] }

omit [Kind κ] in
theorem definition?_add (r : Resolver κ ν τ) (d : Definition κ ν) (id : String) (block : Nat) :
    (r.add d).definition? id block
      = (r.definition? id block).or (if d.block = block ∧ d.id = id then some d else none) := by
  unfold definition? add
  rw [List.find?_append]
  by_cases h : d.block = block ∧ d.id = id
  · simp [h]
  · have hno : (decide (d.block = block) && decide (d.id = id)) = false := by simpa using h
    rw [if_neg h, List.find?_cons, hno, List.find?_nil]

/-- Where nothing was found before, a new definition is found exactly if it fits. -/
theorem lookup_add {r : Resolver κ ν τ} {d : Definition κ ν}
    (hnew : r.definition? d.id d.block = none) {path : List Nat} {id : String} {kind : κ}
    (hnone : r.lookup path id kind = none) :
    (r.add d).lookup path id kind
      = if id = d.id ∧ d.block ∈ path ∧ Kind.accepts kind d.kind = true then some d.value
        else none := by
  induction path with
  | nil => simp [lookup, visible]
  | cons block path ih =>
    rw [lookup_cons, Option.or_eq_none_iff, Option.map_eq_none_iff] at hnone
    obtain ⟨hfirst, hrest⟩ := hnone
    rw [lookup_cons, ih hrest, definition?_add]
    -- the innermost block has the new definition, or the search goes on behind it
    by_cases hd : d.block = block ∧ d.id = id
    · obtain ⟨rfl, rfl⟩ := hd
      rw [hnew, if_pos ⟨rfl, rfl⟩, Option.none_or]
      cases hk : Kind.accepts kind d.kind with
      | true => rw [Option.filter_some_pos (by exact hk)]; simp
      | false => rw [Option.filter_some_neg (by simp [hk])]; simp
    · have hmem : (id = d.id ∧ d.block ∈ block :: path ∧ Kind.accepts kind d.kind = true) ↔
          id = d.id ∧ d.block ∈ path ∧ Kind.accepts kind d.kind = true := by
        rw [List.mem_cons]
        constructor
        · rintro ⟨rfl, rfl | hp, hk⟩
          · exact absurd ⟨rfl, rfl⟩ hd
          · exact ⟨rfl, hp, hk⟩
        · rintro ⟨rfl, hp, hk⟩
          exact ⟨rfl, .inr hp, hk⟩
      rw [if_neg hd, Option.or_none, hfirst]
      simp only [Option.map_none, Option.none_or, hmem]

/-- A requirement that nothing in sight met before is met by a new definition exactly when it is
    one that meets it. -/
theorem met?_add {r : Resolver κ ν τ} {d : Definition κ ν}
    (hnew : r.definition? d.id d.block = none) {q : Requirement κ τ}
    (hq : r.lookup q.path q.id q.kind = none) :
    (r.add d).met? d.id d.block q
      = if q.MetBy d then some { tag := q.tag, result := .ok d.value } else none := by
  unfold met? Requirement.MetBy
  rw [lookup_add hnew hq]
  by_cases hid : q.id = d.id
  · by_cases hpath : d.block ∈ q.path
    · by_cases hk : Kind.accepts q.kind d.kind = true <;> simp [hid, hpath, hk]
    · simp [hid, hpath]
  · simp [hid]

end Resolver

end Formwork
