import Mathlib.Data.List.Forall2
import Formwork.Proofs.Resolver.Decisions

namespace Formwork

/-!
# What fails, and why

When the outermost block closes, what still waits fails, in the order in which it was required. A
failure names the kind of the nearest definition of its identifier, if one is in sight: that kind
does not fit then, since otherwise the requirement would not have waited.

* `Resolver.run_waiting` — what waits after some calls, in the order of the calls that made it.
* `Resolver.stillWaits_iff_undecided` — it is what nothing was decided of so far.
* `Resolver.failure_fails` — what the failure of a requirement says.
* `Resolver.fails_of_closesAll`, `Resolver.fails_of_mem_decisions` — what fails, and when.
-/

variable {κ ν τ : Type} [Kind κ]

/-- Whether a definition is in sight of a requirement: it has the identifier, whatever its kind, and
    lies in the block of the requirement or in one around it. -/
def Requirement.Sees (q : Requirement κ τ) (d : Definition κ ν) : Prop :=
  q.id = d.id ∧ d.block ∈ q.path

/-- A definition meets a requirement that sees it and accepts its kind. -/
theorem Requirement.metBy_iff {q : Requirement κ τ} {d : Definition κ ν} :
    q.MetBy d ↔ q.Sees d ∧ Kind.accepts q.kind d.kind = true := by
  rw [Requirement.MetBy, Requirement.Sees, and_assoc]

namespace Resolver

/-! ### The nearest definition, whatever its kind -/

/-- Nothing is visible exactly when no definition of the identifier lies on the path. -/
theorem Sound.visible_eq_nil_iff {r : Resolver κ ν τ} (h : r.Sound) {path : List Nat}
    {id : String} :
    r.visible path id = [] ↔ ∀ d ∈ r.definitions, d.block ∈ path → d.id ≠ id := by
  unfold visible
  rw [List.filterMap_eq_nil_iff]
  constructor
  · rintro hnone d hd hpath rfl
    exact absurd (h.definition?_eq_some hd) (by simp [hnone d.block hpath])
  · intro hnone block hblock
    cases hfound : r.definition? id block with
    | none => rfl
    | some d =>
      obtain ⟨hmem, rfl, hid⟩ := of_definition?_eq_some hfound
      exact absurd hid (hnone d hmem hblock)

/-- What is visible first is the definition in the block with the greatest number. -/
theorem Sound.head?_visible_eq_some_iff {r : Resolver κ ν τ} (h : r.Sound) {path : List Nat}
    (hpath : path.Pairwise (· > ·)) {id : String} {d : Definition κ ν} :
    (r.visible path id).head? = some d ↔
      d ∈ r.definitions ∧ d.block ∈ path ∧ d.id = id ∧
        ∀ e ∈ r.definitions, e.block ∈ path → e.id = id → e.block ≤ d.block := by
  induction path with
  | nil => simp [visible]
  | cons block path ih =>
    obtain ⟨hfirst, hrest⟩ := List.pairwise_cons.mp hpath
    have hcons : r.visible (block :: path) id
        = (r.definition? id block).toList ++ r.visible path id := by
      unfold visible
      rw [List.filterMap_cons]
      cases r.definition? id block <;> rfl
    rw [hcons]
    cases hfound : r.definition? id block with
    | some c =>
      -- the innermost block decides, and no other block of the path has a greater number
      obtain ⟨hmem, rfl, rfl⟩ := of_definition?_eq_some hfound
      have hgreatest : ∀ e ∈ r.definitions, e.block ∈ c.block :: path → e.block ≤ c.block := by
        intro e _ he
        obtain heq | he := List.mem_cons.mp he
        · exact Nat.le_of_eq heq
        · exact Nat.le_of_lt (hfirst _ he)
      simp only [Option.toList_some, List.singleton_append, List.head?_cons, Option.some.injEq]
      constructor
      · rintro rfl
        exact ⟨hmem, List.mem_cons_self, rfl, fun e he hpe _ => hgreatest e he hpe⟩
      · rintro ⟨hd, hpd, hid, hmax⟩
        have heq : d.block = c.block :=
          Nat.le_antisymm (hgreatest d hd hpd) (hmax c hmem List.mem_cons_self rfl)
        have hsame := h.definition?_eq_some hd
        rw [hid, heq, hfound] at hsame
        exact Option.some.inj hsame
    | none =>
      -- nothing of the identifier is in the innermost block
      have hin : ∀ e ∈ r.definitions, e.id = id → (e.block ∈ block :: path ↔ e.block ∈ path) := by
        rintro e he rfl
        have hskip : e.block ≠ block := by
          rintro rfl
          rw [h.definition?_eq_some he] at hfound
          cases hfound
        rw [List.mem_cons, or_iff_right hskip]
      rw [Option.toList_none, List.nil_append, ih hrest]
      constructor
      · rintro ⟨hd, hpd, hid, hmax⟩
        exact ⟨hd, (hin d hd hid).mpr hpd, hid,
          fun e he hpe heid => hmax e he ((hin e he heid).mp hpe) heid⟩
      · rintro ⟨hd, hpd, hid, hmax⟩
        exact ⟨hd, (hin d hd hid).mp hpd, hid,
          fun e he hpe heid => hmax e he ((hin e he heid).mpr hpe) heid⟩

/-- A definition that is made in some calls and is in sight of a requirement. -/
def InSight (as : List (Action κ ν τ)) (q : Requirement κ τ) (k : Nat) (d : Definition κ ν) :
    Prop :=
  Stores as k d ∧ q.Sees d

/-- The nearest of them: of the blocks around a requirement, the innermost was opened last. -/
def Nearest (as : List (Action κ ν τ)) (q : Requirement κ τ) (k : Nat) (d : Definition κ ν) :
    Prop :=
  InSight as q k d ∧ ∀ l e, InSight as q l e → e.block ≤ d.block

/-- The definitions of the resolver that a requirement sees are those that are in sight. -/
theorem seen_definition_iff {as : List (Action κ ν τ)} {q : Requirement κ τ}
    (hq : ∀ j ∈ q.path, IsBlock as j) (e : Definition κ ν) :
    (e ∈ (run as).definitions ∧ (placedRequirement as q).Sees e) ↔
      ∃ k d, InSight as q k d ∧ e = placed as d := by
  rw [mem_run_definitions]
  constructor
  · rintro ⟨⟨k, d, hd, hin, rfl⟩, hid, hnumber⟩
    obtain ⟨j, hj, hsame⟩ := List.mem_map.mp hnumber
    obtain rfl := ((hq j hj).number_eq_iff ⟨hin, hd.push⟩).mp hsame
    exact ⟨k, d, ⟨hd, hid, hj⟩, rfl⟩
  · rintro ⟨k, d, ⟨hd, hid, hblock⟩, rfl⟩
    exact ⟨⟨k, d, hd, (hq d.block hblock).1, rfl⟩, hid, List.mem_map_of_mem hblock⟩

/-- The inner a block of a requirement, the greater its number. -/
theorem placed_path_pairwise {as : List (Action κ ν τ)} {q : Requirement κ τ}
    (hq : ∀ j ∈ q.path, IsBlock as j) (hpath : q.path.Pairwise (· > ·)) :
    (placedRequirement as q).path.Pairwise (· > ·) := by
  refine List.pairwise_map.mpr (hpath.imp_of_mem ?_)
  intro j l hj hl hlt
  by_contra hle
  have := ((hq j hj).number_le_iff (hq l hl)).mp (Nat.le_of_not_lt hle)
  omega

/-- **What is visible first** after some calls is the nearest definition that is in sight. -/
theorem run_visible_head?_iff {as : List (Action κ ν τ)} {q : Requirement κ τ}
    (hq : ∀ j ∈ q.path, IsBlock as j) (hpath : q.path.Pairwise (· > ·)) {e : Definition κ ν} :
    ((run as).visible (placedRequirement as q).path q.id).head? = some e ↔
      ∃ k d, Nearest as q k d ∧ e = placed as d := by
  rw [(run_sound as).head?_visible_eq_some_iff (placed_path_pairwise hq hpath)]
  constructor
  · rintro ⟨he, hblock, hid, hmax⟩
    obtain ⟨k, d, hd, rfl⟩ := (seen_definition_iff hq e).mp ⟨he, hid.symm, hblock⟩
    refine ⟨k, d, ⟨hd, fun l f hf => ?_⟩, rfl⟩
    obtain ⟨hmem, hfid, hfblock⟩ := (seen_definition_iff hq (placed as f)).mpr ⟨l, f, hf, rfl⟩
    exact ((hq _ hf.2.2).number_le_iff (hq _ hd.2.2)).mp (hmax _ hmem hfblock hfid.symm)
  · rintro ⟨k, d, ⟨hd, hmax⟩, rfl⟩
    obtain ⟨hmem, hid, hblock⟩ := (seen_definition_iff hq (placed as d)).mpr ⟨k, d, hd, rfl⟩
    refine ⟨hmem, hblock, hid.symm, fun e he heblock heid => ?_⟩
    obtain ⟨l, f, hf, rfl⟩ := (seen_definition_iff hq e).mp ⟨he, heid.symm, heblock⟩
    exact ((hq _ hf.2.2).number_le_iff (hq _ hd.2.2)).mpr (hmax l f hf)

/-! ### What still waits -/

/-- Whether a requirement still waits after some calls: it was made in an open block of the document
    that is open, and nothing fits it so far. -/
structure StillWaits (as : List (Action κ ν τ)) (i : Nat) (q : Requirement κ τ) : Prop where
  asks : Asks as i q
  inside : q.path ≠ []
  unclosed : ∀ m, i < m → ¬ClosesAll as m
  unfit : ∀ k d, ¬Fits as q k d

omit [Kind κ] in
theorem Asks.lt {as : List (Action κ ν τ)} {i : Nat} {q : Requirement κ τ} (h : Asks as i q) :
    i < as.length :=
  (List.getElem?_eq_some_iff.mp h.1).1

omit [Kind κ] in
/-- What a call required is not changed by later calls. -/
theorem asks_append (as bs : List (Action κ ν τ)) {i : Nat} (hi : i < as.length)
    (q : Requirement κ τ) : Asks (as ++ bs) i q ↔ Asks as i q := by
  rw [Asks, Asks, List.getElem?_append_left hi, take_of_lt as bs hi]

omit [Kind κ] in
/-- The blocks around a requirement were opened before it was made, -/
theorem Asks.path_lt {as : List (Action κ ν τ)} {i : Nat} {q : Requirement κ τ}
    (h : Asks as i q) : ∀ j ∈ q.path, j < i := by
  intro j hj
  rw [h.2] at hj
  have hlt := lt_of_mem_openers hj
  rw [List.length_take] at hlt
  exact Nat.lt_of_lt_of_le hlt (Nat.min_le_left _ _)

omit [Kind κ] in
/-- and the innermost was opened last. -/
theorem Asks.path_pairwise {as : List (Action κ ν τ)} {i : Nat} {q : Requirement κ τ}
    (h : Asks as i q) : q.path.Pairwise (· > ·) := by
  rw [h.2]
  exact openers_pairwise _

omit [Kind κ] in
/-- As long as the outermost block is open, the blocks of a requirement are of the document. -/
theorem Asks.isBlock {as : List (Action κ ν τ)} {i : Nat} {q : Requirement κ τ} (h : Asks as i q)
    (hunclosed : ∀ m, i < m → ¬ClosesAll as m) : ∀ j ∈ q.path, IsBlock as j := by
  induction as using List.reverseRecOn with
  | nil => exact absurd h.lt (Nat.not_lt_zero _)
  | append_singleton as a ih =>
    intro j hj
    have hlt : i < as.length + 1 := by simpa using h.lt
    obtain hlt | rfl := Nat.lt_or_eq_of_le (Nat.le_of_lt_succ hlt)
    · have hbefore := ih ((asks_append as [a] hlt q).mp h) (unclosed_of_snoc hunclosed) j hj
      exact isBlock_snoc hbefore (hunclosed as.length hlt)
    · -- the requirement was made by the last call, which leaves its blocks open
      have hopen : j ∈ openers as := by
        have hpath := h.2
        rw [List.take_left] at hpath
        exact hpath ▸ hj
      obtain ⟨hcall, -⟩ := h
      obtain rfl : a = .resolve q.origin q.id q.kind q.tag := by simpa using hcall
      exact isBlock_snoc (isBlock_of_mem_openers hopen) (not_closesAll_last (by simp))

omit [Kind κ] in
/-- The last call requires something if it is a `resolve`, in the blocks that are open then. -/
theorem asks_last {as : List (Action κ ν τ)} {a : Action κ ν τ} {q : Requirement κ τ} :
    Asks (as ++ [a]) as.length q ↔
      a = .resolve q.origin q.id q.kind q.tag ∧ q.path = openers as := by
  simp [Asks]

/-- What still waited goes on waiting unless a call closes the outermost block or makes a definition
    that fits. -/
theorem stillWaits_snoc {as : List (Action κ ν τ)} {a : Action κ ν τ} {i : Nat}
    (hi : i < as.length) {q : Requirement κ τ} :
    StillWaits (as ++ [a]) i q ↔ StillWaits as i q ∧ ¬ClosesAll (as ++ [a]) as.length ∧
      ∀ d, Stores (as ++ [a]) as.length d → ¬q.MetBy d := by
  -- one more action adds one more moment at which the requirement might have stopped waiting
  constructor
  · intro h
    refine ⟨⟨(asks_append as [a] hi q).mp h.asks, h.inside, unclosed_of_snoc h.unclosed, ?_⟩,
      h.unclosed as.length hi, ?_⟩
    · intro k d hd
      exact h.unfit k d ((fits_append as [a] q hd.lt d).mpr hd)
    · intro d hd hmet
      exact h.unfit as.length d ⟨hd, hmet⟩
  · rintro ⟨h, hopen, hlast⟩
    exact ⟨(asks_append as [a] hi q).mpr h.asks, h.inside, unclosed_snoc h.unclosed hopen,
      unfit_snoc h.unfit hlast⟩

/-- A requirement that is made in an open block waits when nothing fits it yet. -/
theorem stillWaits_last {as : List (Action κ ν τ)} {q : Requirement κ τ} :
    StillWaits (as ++ [.resolve q.origin q.id q.kind q.tag]) as.length q ↔
      q.path = openers as ∧ q.path ≠ [] ∧ ∀ k d, ¬Fits as q k d := by
  have hlast : ∀ d, ¬Stores (as ++ [.resolve q.origin q.id q.kind q.tag]) as.length d :=
    not_stores_last (by simp)
  constructor
  · intro h
    refine ⟨(asks_last.mp h.asks).2, h.inside, fun k d hd => ?_⟩
    exact h.unfit k d ((fits_append as _ q hd.lt d).mpr hd)
  · rintro ⟨hpath, hinside, hunfit⟩
    refine ⟨asks_last.mpr ⟨rfl, hpath⟩, hinside, ?_, ?_⟩
    · intro m him hclose
      have hm := (List.getElem?_eq_some_iff.mp hclose.1).1
      simp only [List.length_append, List.length_singleton] at hm
      omega
    · exact unfit_snoc hunfit fun d hd => absurd hd (hlast d)

/-- Some requirements, each with the place of its call, are those that still wait after some calls,
    in the order in which they were made. -/
structure AreWaiting (as : List (Action κ ν τ)) (qs : List (Nat × Requirement κ τ)) : Prop where
  ordered : qs.Pairwise fun p p' => p.1 < p'.1
  complete : ∀ i q, (i, q) ∈ qs ↔ StillWaits as i q

theorem StillWaits.lt {as : List (Action κ ν τ)} {i : Nat} {q : Requirement κ τ}
    (h : StillWaits as i q) : i < as.length :=
  h.asks.lt

/-- What waits after one call more was required by that call at the latest. -/
theorem StillWaits.le_of_snoc {as : List (Action κ ν τ)} {a : Action κ ν τ} {i : Nat}
    {q : Requirement κ τ} (h : StillWaits (as ++ [a]) i q) : i ≤ as.length := by
  have hlt := h.lt
  rw [List.length_append, List.length_singleton] at hlt
  exact Nat.le_of_lt_succ hlt

theorem StillWaits.placed_append {as : List (Action κ ν τ)} {i : Nat} {q : Requirement κ τ}
    (h : StillWaits as i q) (bs : List (Action κ ν τ)) :
    placedRequirement (as ++ bs) q = placedRequirement as q :=
  placedRequirement_append fun j hj => Nat.lt_trans (h.asks.path_lt j hj) h.lt

/-- A call that makes no requirement that waits leaves of the waiting ones those that go on. -/
theorem AreWaiting.filter_snoc {as : List (Action κ ν τ)} {a : Action κ ν τ}
    {qs : List (Nat × Requirement κ τ)} (h : AreWaiting as qs)
    {p : Nat × Requirement κ τ → Bool}
    (hp : ∀ i q, StillWaits as i q → (p (i, q) = true ↔ ¬ClosesAll (as ++ [a]) as.length ∧
      ∀ d, Stores (as ++ [a]) as.length d → ¬q.MetBy d))
    (hlast : ∀ q, ¬StillWaits (as ++ [a]) as.length q) :
    AreWaiting (as ++ [a]) (qs.filter p) where
  ordered := h.ordered.filter _
  complete := by
    intro i q
    rw [List.mem_filter, h.complete]
    -- what was asked before, what the last action asks and what comes after it
    obtain hi | rfl | hi := Nat.lt_trichotomy i as.length
    · rw [stillWaits_snoc hi]
      exact and_congr_right fun hwaits => hp i q hwaits
    · exact iff_of_false (fun hwaits => Nat.lt_irrefl _ hwaits.1.lt) (hlast q)
    · exact iff_of_false (fun hwaits => Nat.lt_asymm hi hwaits.1.lt) fun hwaits =>
        Nat.not_le_of_lt hi hwaits.le_of_snoc

/-- A call that neither closes the outermost block, nor defines or requires anything, leaves what
    waits as it is. -/
theorem AreWaiting.snoc {as : List (Action κ ν τ)} {a : Action κ ν τ}
    {qs : List (Nat × Requirement κ τ)} (h : AreWaiting as qs)
    (hopen : ¬ClosesAll (as ++ [a]) as.length)
    (hstores : ∀ d, ¬Stores (as ++ [a]) as.length d)
    (hlast : ∀ q, ¬StillWaits (as ++ [a]) as.length q) : AreWaiting (as ++ [a]) qs := by
  have hall := h.filter_snoc (p := fun _ => true)
    (fun i q _ => iff_of_true rfl ⟨hopen, fun d hd => absurd hd (hstores d)⟩) hlast
  rwa [List.filter_true] at hall

/-- A requirement that is made in an open block, and that nothing fits so far, waits last. -/
theorem AreWaiting.waits {as : List (Action κ ν τ)} {qs : List (Nat × Requirement κ τ)}
    (h : AreWaiting as qs) {q : Requirement κ τ} (hpath : q.path = openers as)
    (hinside : q.path ≠ []) (hunfit : ∀ k d, ¬Fits as q k d) :
    AreWaiting (as ++ [.resolve q.origin q.id q.kind q.tag]) (qs ++ [(as.length, q)]) where
  ordered := by
    refine List.pairwise_append.mpr ⟨h.ordered, List.pairwise_singleton _ _, ?_⟩
    intro p hp p' hp'
    obtain rfl := List.mem_singleton.mp hp'
    exact ((h.complete p.1 p.2).mp hp).lt
  complete := by
    intro i p
    rw [List.mem_append, h.complete, List.mem_singleton]
    -- what was asked before goes on waiting, and what is asked now is the requirement itself
    obtain hi | rfl | hi := Nat.lt_trichotomy i as.length
    · rw [stillWaits_snoc hi]
      have hne : (i, p) ≠ (as.length, q) := fun heq => Nat.ne_of_lt hi (Prod.mk.inj heq).1
      rw [or_iff_left hne]
      have hopen : ¬ClosesAll (as ++ [.resolve q.origin q.id q.kind q.tag]) as.length :=
        not_closesAll_last (by simp)
      have hstores : ∀ d, ¬Stores (as ++ [.resolve q.origin q.id q.kind q.tag]) as.length d :=
        not_stores_last (by simp)
      exact (and_iff_left ⟨hopen, fun d hd => absurd hd (hstores d)⟩).symm
    · constructor
      · rintro (hwaits | heq)
        · exact absurd hwaits.lt (Nat.lt_irrefl _)
        · rw [(Prod.mk.inj heq).2]
          exact stillWaits_last.mpr ⟨hpath, hinside, hunfit⟩
      · intro hwaits
        obtain ⟨hcall, hsame⟩ := asks_last.mp hwaits.asks
        injection hcall with horigin hid hkind htag
        right
        rw [Prod.mk.injEq]
        refine ⟨rfl, ?_⟩
        show p = Requirement.mk q.path q.id q.kind q.origin q.tag
        rw [hpath, ← hsame, hid, hkind, horigin, htag]
    · refine iff_of_false ?_ fun hwaits => Nat.not_le_of_lt hi hwaits.le_of_snoc
      rintro (hwaits | heq)
      · exact Nat.lt_asymm hi hwaits.lt
      · exact Nat.ne_of_gt hi (Prod.mk.inj heq).1

/-- A call that makes a requirement is a resolve call. -/
theorem not_stillWaits_last {as : List (Action κ ν τ)} {a : Action κ ν τ}
    (hother : ∀ origin id kind tag, a ≠ .resolve origin id kind tag) (q : Requirement κ τ) :
    ¬StillWaits (as ++ [a]) as.length q :=
  fun h => hother _ _ _ _ (asks_last.mp h.asks).1

/-- A call that finds its identifier makes no requirement that waits. -/
theorem not_stillWaits_last_of_found {as : List (Action κ ν τ)} {origin : Node} {id : String}
    {kind : κ} {tag : τ} {value : ν} (hfound : (run as).lookup (run as).path id kind = some value)
    (q : Requirement κ τ) : ¬StillWaits (as ++ [.resolve origin id kind tag]) as.length q := by
  intro hq
  obtain ⟨hcall, hpath⟩ := asks_last.mp hq.asks
  injection hcall with _ hid hkind _
  rw [hid, hkind] at hfound
  obtain ⟨k, d, hd, -, -⟩ := (run_lookup_eq_some_iff hpath value).mp hfound
  exact hq.unfit k d ((fits_append as _ q hd.lt d).mpr hd)

/-- Nor does a call that is made when no block is open. -/
theorem not_stillWaits_last_of_closed {as : List (Action κ ν τ)} {origin : Node} {id : String}
    {kind : κ} {tag : τ} (hnone : (run as).blocks = []) (q : Requirement κ τ) :
    ¬StillWaits (as ++ [.resolve origin id kind tag]) as.length q := by
  intro hq
  obtain ⟨-, hpath⟩ := asks_last.mp hq.asks
  exact hq.inside (hpath.trans ((run_blocks_eq_nil_iff as).mp hnone))

namespace AreWaiting

variable {as : List (Action κ ν τ)} {qs : List (Nat × Requirement κ τ)}

/-- When the outermost block closes, nothing waits any more. -/
theorem closesLast (h : AreWaiting as qs) (hclose : ClosesAll (as ++ [.pop]) as.length) :
    AreWaiting (as ++ [.pop]) [] := by
  have hnone := h.filter_snoc (p := fun _ => false)
    (fun i q _ => iff_of_false Bool.false_ne_true fun hstays => hstays.1 hclose)
    (not_stillWaits_last (by simp))
  rwa [List.filter_false] at hnone

/-- When a definition is made, the requirements that it does not fit go on waiting. -/
theorem stores (h : AreWaiting as qs) {origin : Node} {id : String} {kind : κ} {value : ν}
    {d : Definition κ ν} (hd : Stores (as ++ [.define origin id kind value]) as.length d) :
    AreWaiting (as ++ [.define origin id kind value]) (qs.filter fun p => ¬p.2.MetBy d) := by
  refine h.filter_snoc ?_ (not_stillWaits_last (by simp))
  intro i q _
  rw [decide_eq_true_iff]
  constructor
  · intro hunmet
    refine ⟨not_closesAll_last (by simp), fun e he => ?_⟩
    rwa [he.unique hd]
  · exact fun hstays => hstays.2 d hd

/-- Later calls do not move what waits. -/
theorem map_placed_append (h : AreWaiting as qs) (bs : List (Action κ ν τ)) :
    qs.map (fun p => placedRequirement (as ++ bs) p.2)
      = qs.map fun p => placedRequirement as p.2 :=
  List.map_congr_left fun p hp => ((h.complete p.1 p.2).mp hp).placed_append bs

/-- What does not fit goes on waiting in the resolver too, which compares the numbers of blocks
    where the calls compare the blocks. -/
theorem filter_map_placed (h : AreWaiting as qs) {d : Definition κ ν}
    (hin : IsBlock as d.block) :
    (qs.map fun p => placedRequirement as p.2).filter (fun q => ¬q.MetBy (placed as d))
      = (qs.filter fun p => ¬p.2.MetBy d).map fun p => placedRequirement as p.2 := by
  rw [List.filter_map]
  congr 1
  refine List.filter_congr fun p hp => ?_
  have hwaits := (h.complete p.1 p.2).mp hp
  simp only [Function.comp_apply,
    metBy_placed_iff (hwaits.asks.isBlock hwaits.unclosed) hin]

/-- One call more: what waits in the resolver is again what still waits after the calls. -/
theorem step (h : AreWaiting as qs)
    (hwaiting : (run as).waiting = qs.map fun p => placedRequirement as p.2)
    (a : Action κ ν τ) :
    ∃ qs', AreWaiting (as ++ [a]) qs' ∧
      (run (as ++ [a])).waiting = qs'.map fun p => placedRequirement (as ++ [a]) p.2 := by
  have hsame := (h.map_placed_append [a]).trans hwaiting.symm
  have hdoes := last_does as a
  rw [run_snoc]
  generalize heffect : (run as).act a = effect at hdoes
  cases hdoes with
  | opens =>
    exact ⟨qs, h.snoc (not_closesAll_last (by simp)) (not_stores_last (by simp))
      (not_stillWaits_last (by simp)), hsame.symm⟩
  | popsNothing hnone =>
    refine ⟨qs, h.snoc ?_ (not_stores_last (by simp)) (not_stillWaits_last (by simp)),
      hsame.symm⟩
    rw [closesAll_last, ← run_blocks_length, hnone]
    simp
  | closes b blocks hne hfirst =>
    refine ⟨qs, h.snoc ?_ (not_stores_last (by simp)) (not_stillWaits_last (by simp)),
      hsame.symm⟩
    rw [closesAll_last, ← run_blocks_length, hfirst]
    simpa using hne
  | closesLast b hone =>
    refine ⟨[], h.closesLast ?_, rfl⟩
    rw [closesAll_last, ← run_blocks_length, hone]
    exact ⟨rfl, rfl⟩
  | refuses origin id kind value report hwhy =>
    refine ⟨qs, h.snoc (not_closesAll_last (by simp)) ?_ (not_stillWaits_last (by simp)),
      hsame.symm⟩
    -- a definition that is made is not reported
    intro d hd
    have hreport := (stores_last.mp hd).2.1
    rw [heffect] at hreport
    cases hreport
  | stores b d outcomes hblock htaken hnew hmet =>
    obtain ⟨d, hd, rfl⟩ := exists_stores hblock htaken (by rw [heffect])
    have hnext := h.stores hd
    refine ⟨_, hnext, ?_⟩
    show (run as).waiting.filter _ = _
    rw [hwaiting, h.filter_map_placed (isBlock_of_mem_openers (mem_openers_of_stores_last hd))]
    exact List.map_congr_left fun p hp =>
      (((h.complete p.1 p.2).mp (List.mem_of_mem_filter hp)).placed_append _).symm
  | finds origin id kind tag value hfound =>
    exact ⟨qs, h.snoc (not_closesAll_last (by simp)) (not_stores_last (by simp))
      (not_stillWaits_last_of_found hfound), hsame.symm⟩
  | fails origin id kind tag hnone =>
    exact ⟨qs, h.snoc (not_closesAll_last (by simp)) (not_stores_last (by simp))
      (not_stillWaits_last_of_closed hnone), hsame.symm⟩
  | waits origin id kind tag hopen hunmet =>
    let q : Requirement κ τ := { path := openers as, id, kind, origin, tag }
    have hplace : placedRequirement as q = (run as).required origin id kind tag := by
      rw [required, run_path]
      rfl
    have hunfit : ∀ k d, ¬Fits as q k d := by
      rw [← run_lookup_eq_none_iff (isBlock_of_openers rfl), hplace]
      exact hunmet
    have hnext := h.waits (q := q) rfl (mt (run_blocks_eq_nil_iff as).mpr hopen) hunfit
    refine ⟨qs ++ [(as.length, q)], hnext, ?_⟩
    have hlast : placedRequirement (as ++ [.resolve origin id kind tag]) q
        = (run as).required origin id kind tag := by
      rw [← hplace]
      exact placedRequirement_append fun j hj => lt_of_mem_openers hj
    rw [List.map_append, hsame, List.map_singleton, hlast]

end AreWaiting

/-- **What waits** after some calls, in the order in which it was required. -/
theorem run_waiting (as : List (Action κ ν τ)) :
    ∃ qs, AreWaiting as qs ∧ (run as).waiting = qs.map fun p => placedRequirement as p.2 := by
  induction as using List.reverseRecOn with
  | nil =>
    refine ⟨[], ⟨.nil, fun i q => ?_⟩, rfl⟩
    exact iff_of_false List.not_mem_nil fun h => absurd h.lt (Nat.not_lt_zero _)
  | append_singleton as a ih =>
    obtain ⟨qs, hqs, hwaiting⟩ := ih
    exact hqs.step hwaiting a

/-- What a history decides is what each of its calls does. -/
theorem mem_decisions_iff {as : List (Action κ ν τ)} {m : Nat} {o : Outcome ν τ} :
    (m, o) ∈ decisions as ↔ o ∈ decidedAt as m := by
  rw [mem_decisions, decidedAt]
  cases as[m]? <;> simp

/-- A requirement has received nothing as long as no call decided it. -/
theorem received_eq_nil_iff [DecidableEq τ] {as : List (Action κ ν τ)} {tag : τ} :
    received as tag = [] ↔ ∀ k, ∀ o ∈ decidedAt as k, o.tag ≠ tag := by
  unfold received
  rw [List.filterMap_eq_nil_iff]
  constructor
  · intro hnothing k o ho htag
    have := hnothing (k, o) (mem_decisions_iff.mpr ho)
    simp [htag] at this
  · rintro hother ⟨k, o⟩ ho
    simp [hother k o (mem_decisions_iff.mp ho)]

/-- A requirement that is made where no block is open fails at once. -/
theorem Asks.exists_decided {as : List (Action κ ν τ)} {i : Nat} {q : Requirement κ τ}
    (h : Asks as i q) (hpath : q.path = []) : ∃ o ∈ decidedAt as i, o.tag = q.tag := by
  have hnone : (run (as.take i)).blocks = [] := by
    rw [run_blocks_eq_nil_iff, ← h.2, hpath]
  have hdoes := last_does (as.take i) (.resolve q.origin q.id q.kind q.tag)
  rw [decidedAt, h.1, Option.elim_some]
  generalize (run (as.take i)).act (.resolve q.origin q.id q.kind q.tag) = e at hdoes
  cases hdoes with
  | finds => exact ⟨_, List.mem_cons_self, rfl⟩
  | fails => exact ⟨_, List.mem_cons_self, rfl⟩
  | waits _ _ _ _ hopen => exact absurd hnone hopen

/-- **What still waits** is what was required and nothing was decided of so far. -/
theorem stillWaits_iff_undecided {as : List (Action κ ν τ)} {i : Nat} {q : Requirement κ τ}
    (hasks : Asks as i q) (htag : ∀ k p, Asks as k p → p.tag = q.tag → k = i) :
    StillWaits as i q ↔ ∀ k, ∀ o ∈ decidedAt as k, o.tag ≠ q.tag := by
  classical
  constructor
  · intro h
    obtain hwaits | ⟨-, hdecided⟩ := standing hasks h.inside htag
    · exact received_eq_nil_iff.mp hwaits.nothing
    · exfalso
      generalize received as q.tag = answers at hdecided
      -- each way of being decided denies one of the conditions of waiting
      cases hdecided with
      | atOnce k d _ hfits => exact h.unfit k d hfits
      | later k d _ hfits => exact h.unfit k d hfits
      | fails m _ him hclose => exact h.unclosed m him hclose
  · intro hnothing
    -- outside every block the outcome comes at once
    have hinside : q.path ≠ [] := fun hpath => by
      obtain ⟨o, ho, htag⟩ := hasks.exists_decided hpath
      exact hnothing i o ho htag
    obtain hwaits | ⟨-, hdecided⟩ := standing hasks hinside htag
    · exact ⟨hasks, hinside, hwaits.unclosed, hwaits.unfit⟩
    · have hone := hdecided.length_eq
      rw [received_eq_nil_iff.mpr hnothing] at hone
      cases hone

/-! ### What a failure says -/

/-- What the failure of a requirement says after some calls. -/
structure FailsAs (as : List (Action κ ν τ)) (q : Requirement κ τ) (u : Unresolved) : Prop where
  id : u.id = q.id
  origin : u.origin = q.origin
  expected : u.expected = Kind.text q.kind
  /-- It has found something exactly when a definition of the identifier is in sight, and then it
      names the kind of the nearest. -/
  found : ∀ kind, u.found = some kind ↔ ∃ k d, Nearest as q k d ∧ kind = Kind.text d.kind
  unseen : u.found = none ↔ ∀ k d, ¬InSight as q k d
  /-- No definition that is in sight fits. -/
  unfit : ∀ k d, InSight as q k d → Kind.accepts q.kind d.kind = false
  /-- So a wrong kind is reported only of a definition whose kind is wrong, and a missing definition
      only when there is none. -/
  report : (∃ k d, Nearest as q k d ∧ Kind.accepts q.kind d.kind = false ∧
      u.report = .atNode (.kindMismatch q.id (Kind.text q.kind) (Kind.text d.kind)) q.origin) ∨
    (∀ k d, ¬InSight as q k d) ∧ u.report = .atNode (.unresolvedIdentifier q.id) q.origin

/-- What a requirement receives when it fails after some calls. -/
def Fails (as : List (Action κ ν τ)) (q : Requirement κ τ) (o : Outcome ν τ) : Prop :=
  o.tag = q.tag ∧ ∃ u, o.result = .error u ∧ FailsAs as q u

/-- **The failure of a requirement** that nothing fits. -/
theorem failure_fails {as : List (Action κ ν τ)} {q : Requirement κ τ}
    (hq : ∀ j ∈ q.path, IsBlock as j) (hpath : q.path.Pairwise (· > ·))
    (hunfit : ∀ k d, ¬Fits as q k d) :
    Fails as q ((run as).failure (placedRequirement as q)) := by
  have hwrong : ∀ k d, InSight as q k d → Kind.accepts q.kind d.kind = false := by
    intro k d hd
    rw [← Bool.not_eq_true]
    exact fun hfits => hunfit k d ⟨hd.1, Requirement.metBy_iff.mpr ⟨hd.2, hfits⟩⟩
  obtain ⟨u, hu⟩ : ∃ u : Unresolved, u = ⟨q.id, q.origin, Kind.text q.kind,
    ((run as).visible (placedRequirement as q).path q.id).head?.map fun e => Kind.text e.kind⟩ :=
    ⟨_, rfl⟩
  refine ⟨rfl, u, congrArg Except.error hu.symm, ?_⟩
  cases hhead : ((run as).visible (placedRequirement as q).path q.id).head? with
  | some e =>
    -- something is in sight, and the nearest of it is of the wrong kind
    obtain ⟨k, d, hd, rfl⟩ := (run_visible_head?_iff hq hpath).mp hhead
    rw [hhead, Option.map_some] at hu
    subst hu
    refine
      { id := rfl, origin := rfl, expected := rfl, unfit := hwrong
        found := fun kind => ⟨?_, ?_⟩
        unseen := iff_of_false (Option.some_ne_none _) fun hnone => hnone k d hd.1
        report := .inl ⟨k, d, hd, hwrong k d hd.1, rfl⟩ }
    · exact fun hkind => ⟨k, d, hd, (Option.some.inj hkind).symm⟩
    · rintro ⟨l, f, hf, rfl⟩
      have hsame := (run_visible_head?_iff hq hpath).mpr ⟨l, f, hf, rfl⟩
      rw [hhead] at hsame
      exact congrArg (Option.map fun e => Kind.text e.kind) hsame
  | none =>
    have hnone : ∀ k d, ¬InSight as q k d := by
      intro k d hd
      obtain ⟨hmem, hid, hblock⟩ := (seen_definition_iff hq (placed as d)).mpr ⟨k, d, hd, rfl⟩
      have hempty := List.head?_eq_none_iff.mp hhead
      exact (run_sound as).visible_eq_nil_iff.mp hempty _ hmem hblock hid.symm
    rw [hhead, Option.map_none] at hu
    subst hu
    exact
      { id := rfl, origin := rfl, expected := rfl, unfit := hwrong
        found := fun kind =>
          iff_of_false (Option.some_ne_none kind).symm fun ⟨k, d, hd, _⟩ => hnone k d hd.1
        unseen := iff_of_true rfl hnone
        report := .inr ⟨hnone, rfl⟩ }

/-- If the outermost block closed now, the requirement would fail. -/
theorem StillWaits.fails {as : List (Action κ ν τ)} {i : Nat} {q : Requirement κ τ}
    (h : StillWaits as i q) : Fails as q ((run as).failure (placedRequirement as q)) :=
  failure_fails (h.asks.isBlock h.unclosed) h.asks.path_pairwise h.unfit

/-- Where no block is open, nothing is in sight. -/
theorem failure_fails_outside {as : List (Action κ ν τ)} (hnone : (run as).blocks = [])
    (origin : Node) (id : String) (kind : κ) (tag : τ) :
    Fails as { path := [], id, kind, origin, tag }
      ((run as).failure ((run as).required origin id kind tag)) := by
  let q : Requirement κ τ := { path := [], id, kind, origin, tag }
  have hplace : placedRequirement as q = (run as).required origin id kind tag := by
    rw [required, path, hnone]
    rfl
  rw [← hplace]
  exact failure_fails (fun j hj => absurd hj List.not_mem_nil) .nil
    fun k d hd => absurd hd.2.2.1 List.not_mem_nil

/-! ### A history of calls -/

/-- **Closing the outermost block** fails what still waits, in the order in which it was
    required. -/
theorem fails_of_closesAll {as : List (Action κ ν τ)} {m : Nat} (hclose : ClosesAll as m) :
    ∃ qs, AreWaiting (as.take m) qs ∧
      List.Forall₂ (fun p o => Fails (as.take m) p.2 o) qs (decidedAt as m) := by
  obtain ⟨qs, hqs, hwaiting⟩ := run_waiting (as.take m)
  refine ⟨qs, hqs, ?_⟩
  have houtcomes : decidedAt as m = (run (as.take m)).waiting.map (run (as.take m)).failure := by
    obtain ⟨hpop, hone⟩ := hclose
    rw [← run_blocks_length] at hone
    obtain ⟨b, hb⟩ := List.length_eq_one_iff.mp hone
    rw [decidedAt, hpop]
    simp [act, pop, hb]
  rw [houtcomes, hwaiting, List.map_map, List.forall₂_map_right_iff, List.forall₂_same]
  exact fun p hp => ((hqs.complete p.1 p.2).mp hp).fails

/-- Whenever something fails, it is a requirement made before, and it fails rightly. -/
theorem fails_of_mem_decisions {as : List (Action κ ν τ)} {m : Nat} {o : Outcome ν τ}
    (ho : (m, o) ∈ decisions as) {u : Unresolved} (herror : o.result = .error u) :
    ∃ i q, i ≤ m ∧ Asks as i q ∧ Fails (as.take m) q o := by
  obtain ⟨a, ha, hmem⟩ := mem_decisions.mp ho
  have hm : m < as.length := (List.getElem?_eq_some_iff.mp ha).1
  have hdoes := last_does (as.take m) a
  generalize heffect : (run (as.take m)).act a = e at hdoes hmem
  cases hdoes with
  | opens | popsNothing | closes | refuses | waits => cases hmem
  | stores b d outcomes _ _ _ hmet =>
    obtain ⟨q, -, rfl⟩ := List.mem_map.mp (hmet.mem_iff.mp hmem)
    cases herror
  | finds =>
    obtain rfl := List.mem_singleton.mp hmem
    cases herror
  | fails origin id kind tag hnone =>
    obtain rfl := List.mem_singleton.mp hmem
    have hpath : openers (as.take m) = [] := (run_blocks_eq_nil_iff _).mp hnone
    exact ⟨m, _, Nat.le_refl m, ⟨ha, hpath.symm⟩,
      failure_fails_outside hnone origin id kind tag⟩
  | closesLast b hone =>
    -- what fails has waited, and was required before
    obtain ⟨qs, hqs, hwaiting⟩ := run_waiting (as.take m)
    rw [hwaiting, List.map_map] at hmem
    obtain ⟨p, hp, rfl⟩ := List.mem_map.mp hmem
    have hwaits := (hqs.complete p.1 p.2).mp hp
    refine ⟨p.1, p.2, ?_, ?_, hwaits.fails⟩
    · have hlt := hwaits.lt
      rw [List.length_take] at hlt
      omega
    · rw [← List.take_append_drop m as]
      exact (asks_append _ _ hwaits.lt p.2).mpr hwaits.asks

end Resolver

end Formwork
