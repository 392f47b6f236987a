import Mathlib.Data.List.Find
import Mathlib.Data.List.Permutation
import Formwork.Proofs.Resolver.History
import Formwork.References

namespace Formwork

/-!
# Definition and use in either order

A requirement and a definition that are made one right after the other can be exchanged, as long as
the definition does not shadow what the requirement finds without it. A requirement receives what
is in sight when it is made, and does not wait for a nearer definition: made first, it gets the
definition that the other one would shadow, and made second, the other one.

* `Resolver.exchange_met`, `Resolver.exchange_unmet`, `Resolver.exchange_fits` — the two orders side
  by side: the state after both is the same.
* `Resolver.exchange_use_make` — what follows for whole histories.
* `Resolver.exchange_matters` — two histories where the order matters.
-/

variable {κ ν τ : Type} [Kind κ]

namespace Resolver

/-- What is decided in some calls, in order. -/
def outcomes (as : List (Action κ ν τ)) : List (Outcome ν τ) := (decisions as).map Prod.snd

theorem outcomes_snoc (as : List (Action κ ν τ)) (a : Action κ ν τ) :
    outcomes (as ++ [a]) = outcomes as ++ ((run as).act a).outcomes := by
  unfold outcomes
  rw [decisions_snoc, List.map_append, List.map_map]
  congr 1
  exact List.map_id _

/-- From the same state, calls decide the same. -/
theorem outcomes_append_of_run_eq {as bs : List (Action κ ν τ)} (hrun : run as = run bs)
    (cs : List (Action κ ν τ)) :
    run (as ++ cs) = run (bs ++ cs) ∧
      ∃ rest, outcomes (as ++ cs) = outcomes as ++ rest ∧
        outcomes (bs ++ cs) = outcomes bs ++ rest := by
  induction cs using List.reverseRecOn with
  | nil => exact ⟨by simpa using hrun, [], by simp⟩
  | append_singleton cs c ih =>
    obtain ⟨hsame, rest, has, hbs⟩ := ih
    rw [← List.append_assoc, ← List.append_assoc, run_snoc, run_snoc, outcomes_snoc, outcomes_snoc,
      has, hbs, hsame]
    exact ⟨rfl, rest ++ ((run (bs ++ cs)).act c).outcomes, List.append_assoc _ _ _,
      List.append_assoc _ _ _⟩

/-! ### The two calls -/

/-- The call that makes a requirement. -/
def use (q : Requirement κ τ) : Action κ ν τ := .resolve q.origin q.id q.kind q.tag

/-- The call that makes a definition. -/
def make (d : Definition κ ν) : Action κ ν τ := .define d.origin d.id d.kind d.value

/-- What a definition decides of the requirements that wait. -/
def woken (as : List (Action κ ν τ)) (d : Definition κ ν) : List (Outcome ν τ) :=
  ((run as).waiting.filter fun p => p.MetBy (placed as d)).map (delivered d)

omit [Kind κ] in
theorem openers_use (as : List (Action κ ν τ)) (q : Requirement κ τ) :
    openers (as ++ [use q]) = openers as := by
  rw [openers_snoc]
  rfl

omit [Kind κ] in
theorem openers_make (as : List (Action κ ν τ)) (d : Definition κ ν) :
    openers (as ++ [make d]) = openers as := by
  rw [openers_snoc]
  rfl

/-- Whether a definition is taken depends on the blocks and the definitions only. -/
theorem make_report?_congr {r s : Resolver κ ν τ} (hblocks : r.blocks = s.blocks)
    (hdefinitions : r.definitions = s.definitions) (d : Definition κ ν) :
    (r.act (make d)).report? = (s.act (make d)).report? := by
  simp only [act, make, define, accepting?, definition?, hblocks, hdefinitions]
  cases s.blocks.find? fun b => b.kinds.any fun k => Kind.accepts k d.kind with
  | none => rfl
  | some b =>
    simp only
    cases s.definitions.find? fun e => e.block = b.number && e.id = d.id with
    | none => rfl
    | some first => rfl

/-- A requirement changes neither the blocks nor the definitions. -/
theorem run_use_frame (as : List (Action κ ν τ)) (q : Requirement κ τ) :
    (run (as ++ [use q])).blocks = (run as).blocks ∧
      (run (as ++ [use q])).definitions = (run as).definitions := by
  have hdoes : (run as).Does (.resolve q.origin q.id q.kind q.tag) ((run as).act (use q)) :=
    last_does as _
  rw [run_snoc]
  generalize (run as).act (use q) = e at hdoes
  cases hdoes with
  | finds => exact ⟨rfl, rfl⟩
  | fails => exact ⟨rfl, rfl⟩
  | waits => exact ⟨rfl, rfl⟩

/-- A definition that is taken is taken after a requirement too, by the same block. -/
theorem stores_after_use {as : List (Action κ ν τ)} {d : Definition κ ν}
    (hd : Stores (as ++ [make d]) as.length d) (q : Requirement κ τ) :
    Stores ((as ++ [use q]) ++ [make d]) (as ++ [use q]).length d := by
  obtain ⟨-, hreport, htaker⟩ := stores_last.mp hd
  obtain ⟨hblocks, hdefinitions⟩ := run_use_frame as q
  refine stores_last.mpr ⟨rfl, ?_, ?_⟩
  · rw [make_report?_congr hblocks hdefinitions, hreport]
  · have htaker' : taker? (as ++ [use q]) d.kind = taker? as d.kind := by
      unfold taker?
      rw [openers_use]
      apply List.find?_congr
      intro j hj
      unfold kindsOf
      rw [List.getElem?_append_left (lt_of_mem_openers hj)]
    rw [htaker', htaker]

/-- After a definition, what fits is what fitted before, and the definition if it does. -/
theorem fits_make_iff {as : List (Action κ ν τ)} {d : Definition κ ν}
    (hd : Stores (as ++ [make d]) as.length d) (q : Requirement κ τ) (k : Nat)
    (e : Definition κ ν) :
    Fits (as ++ [make d]) q k e ↔ Fits as q k e ∨ k = as.length ∧ e = d ∧ q.MetBy d := by
  unfold Fits
  rw [last_stores_iff, or_and_right, and_assoc]
  refine or_congr_right (and_congr_right fun _ => ?_)
  constructor
  · rintro ⟨he, hmet⟩
    obtain rfl := he.unique hd
    exact ⟨rfl, hmet⟩
  · rintro ⟨rfl, hmet⟩
    exact ⟨hd, hmet⟩

/-- Whether a definition shadows what a requirement finds without it: it meets the requirement, and
    so do others, which are all in blocks further out. -/
def Shadows (as : List (Action κ ν τ)) (q : Requirement κ τ) (d : Definition κ ν) : Prop :=
  q.MetBy d ∧ (∃ k e, Fits as q k e) ∧ ∀ k e, Fits as q k e → e.block < d.block

/-! ### Making the requirement -/

/-- With nothing in sight, a requirement waits. -/
theorem use_waits {as : List (Action κ ν τ)} {q : Requirement κ τ} (hq : q.path = openers as)
    (hopen : q.path ≠ []) (hunfit : ∀ k e, ¬Fits as q k e) :
    run (as ++ [use q])
        = { run as with waiting := (run as).waiting ++ [placedRequirement as q] } ∧
      outcomes (as ++ [use q]) = outcomes as := by
  obtain ⟨k, e, he, -, -⟩ | ⟨-, hwaits⟩ := act_of_asks hq hopen
  · exact absurd he (hunfit k e)
  rw [run_snoc, outcomes_snoc, use, hwaits]
  exact ⟨rfl, List.append_nil _⟩

/-- With something in sight, a requirement receives the nearest. -/
theorem use_finds {as : List (Action κ ν τ)} {q : Requirement κ τ} (hq : q.path = openers as)
    {k : Nat} {d : Definition κ ν} (hd : Fits as q k d)
    (hnearest : ∀ l e, Fits as q l e → e.block ≤ d.block) :
    run (as ++ [use q]) = run as ∧ outcomes (as ++ [use q]) = outcomes as ++ [delivered d q] := by
  obtain ⟨l, e, he, hmax, hfinds⟩ | ⟨hunfit, -⟩ := act_of_asks hq (List.ne_nil_of_mem hd.2.2.1)
  · -- two nearest definitions have the same value, since looking up gives only one
    have hfound := (run_lookup_eq_some_iff hq d.value).mpr ⟨k, d, hd, rfl, hnearest⟩
    have hfound' := (run_lookup_eq_some_iff hq e.value).mpr ⟨l, e, he, rfl, hmax⟩
    have hvalue : e.value = d.value := Option.some.inj (hfound'.symm.trans hfound)
    rw [run_snoc, outcomes_snoc, use, hfinds, delivered, delivered, hvalue]
    exact ⟨rfl, rfl⟩
  · exact absurd hd (hunfit k d)

/-! ### Making the definition before or after the requirement -/

section Exchange

variable {as : List (Action κ ν τ)} {q : Requirement κ τ} {d : Definition κ ν}

theorem make_after_use (hd : Stores (as ++ [make d]) as.length d) :
    run (as ++ [use q] ++ [make d]) = (run (as ++ [use q])).store (placed as d) ∧
      (outcomes (as ++ [use q] ++ [make d])).Perm (outcomes (as ++ [use q]) ++
        ((run (as ++ [use q])).waiting.filter fun p => p.MetBy (placed as d)).map
          (delivered d)) := by
  obtain ⟨hafter, hmet⟩ := act_of_stores (stores_after_use hd q)
  have hplaced : placed (as ++ [use q]) d = placed as d := by
    have hlt := lt_of_mem_openers (mem_openers_of_stores_last hd)
    rw [placed, placed, number_append as _ (Nat.le_of_lt hlt)]
  rw [hplaced] at hafter hmet
  rw [run_snoc, outcomes_snoc]
  exact ⟨hafter, hmet.append_left _⟩

theorem make_before_use (hd : Stores (as ++ [make d]) as.length d) :
    run (as ++ [make d]) = (run as).store (placed as d) ∧
      (outcomes (as ++ [make d])).Perm (outcomes as ++ woken as d) := by
  obtain ⟨hafter, hmet⟩ := act_of_stores hd
  rw [run_snoc, outcomes_snoc]
  exact ⟨hafter, hmet.append_left _⟩

/-! ### In either order -/

/-- **Nothing in sight, and the definition meets the requirement:** made first, the requirement
    waits and is woken, and made second, it finds the definition. -/
theorem exchange_met (hq : q.path = openers as) (hd : Stores (as ++ [make d]) as.length d)
    (hunfit : ∀ k e, ¬Fits as q k e) (hmet : q.MetBy d) :
    run (as ++ [use q] ++ [make d]) = run (as ++ [make d] ++ [use q]) ∧
      (outcomes (as ++ [use q] ++ [make d])).Perm (outcomes as ++ woken as d ++ [delivered d q]) ∧
      (outcomes (as ++ [make d] ++ [use q])).Perm
        (outcomes as ++ woken as d ++ [delivered d q]) := by
  have hplaced : (placedRequirement as q).MetBy (placed as d) :=
    (metBy_placed_iff (isBlock_of_openers hq)
      (isBlock_of_mem_openers (mem_openers_of_stores_last hd))).mpr hmet
  obtain ⟨huse, hnothing⟩ := use_waits hq (List.ne_nil_of_mem hmet.2.1) hunfit
  obtain ⟨hlate, hwoken⟩ := make_after_use (q := q) hd
  obtain ⟨hearly, hwoken'⟩ := make_before_use hd
  have honly : ∀ l e, Fits (as ++ [make d]) q l e → e.block ≤ d.block := by
    intro l e he
    obtain hbefore | ⟨-, rfl, -⟩ := (fits_make_iff hd q l e).mp he
    · exact absurd hbefore (hunfit l e)
    · exact Nat.le_refl _
  have hq' : q.path = openers (as ++ [make d]) := by rw [openers_make, hq]
  obtain ⟨hlast, hfinds⟩ := use_finds hq'
    ((fits_make_iff hd q as.length d).mpr (.inr ⟨rfl, rfl, hmet⟩)) honly
  rw [hlate, hlast, hearly, huse]
  refine ⟨?_, ?_, ?_⟩
  · simp [store, add, List.filter_append, hplaced]
  · -- the requirement waits last, so it is woken after the others
    rw [hnothing, huse] at hwoken
    refine hwoken.trans (List.Perm.of_eq ?_)
    have hlast : ([placedRequirement as q].filter fun p => p.MetBy (placed as d))
        = [placedRequirement as q] := List.filter_cons_of_pos (decide_eq_true hplaced)
    rw [List.filter_append, hlast, List.map_append, ← List.append_assoc]
    rfl
  · rw [hfinds]
    exact hwoken'.append_right _

/-- **Nothing in sight, and the definition does not meet the requirement:** it waits in either
    order. -/
theorem exchange_unmet (hq : q.path = openers as) (hd : Stores (as ++ [make d]) as.length d)
    (hunfit : ∀ k e, ¬Fits as q k e) (hunmet : ¬q.MetBy d) :
    run (as ++ [use q] ++ [make d]) = run (as ++ [make d] ++ [use q]) ∧
      (outcomes (as ++ [use q] ++ [make d])).Perm (outcomes as ++ woken as d) ∧
      (outcomes (as ++ [make d] ++ [use q])).Perm (outcomes as ++ woken as d) := by
  have hin := mem_openers_of_stores_last hd
  have hopen : q.path ≠ [] := hq ▸ List.ne_nil_of_mem hin
  have hplaced : ¬(placedRequirement as q).MetBy (placed as d) :=
    mt (metBy_placed_iff (isBlock_of_openers hq)
      (isBlock_of_mem_openers hin)).mp hunmet
  -- in both orders the requirement waits and the definition wakes what waited before
  obtain ⟨huse, hnothing⟩ := use_waits hq hopen hunfit
  obtain ⟨hlate, hwoken⟩ := make_after_use (q := q) hd
  obtain ⟨hearly, hwoken'⟩ := make_before_use hd
  have hstill : ∀ l e, ¬Fits (as ++ [make d]) q l e := by
    intro l e he
    obtain hbefore | ⟨-, -, hmet⟩ := (fits_make_iff hd q l e).mp he
    · exact hunfit l e hbefore
    · exact hunmet hmet
  have hq' : q.path = openers (as ++ [make d]) := by rw [openers_make, hq]
  obtain ⟨hlast, hnothing'⟩ := use_waits hq' hopen hstill
  rw [placedRequirement_append fun j hj => lt_of_mem_openers (hq ▸ hj)] at hlast
  rw [hlate, hlast, hearly, huse]
  refine ⟨?_, ?_, ?_⟩
  · simp [store, add, List.filter_append, hplaced]
  · rw [hnothing, huse] at hwoken
    refine hwoken.trans (List.Perm.of_eq ?_)
    simp [List.filter_append, hplaced, woken]
  · rw [hnothing']
    exact hwoken'

/-- **Something in sight:** made first, the requirement receives the nearest of what is in sight
    without the definition, and made second, the nearest with it. -/
theorem exchange_fits (hq : q.path = openers as) (hd : Stores (as ++ [make d]) as.length d)
    {k : Nat} {e : Definition κ ν} (he : Fits as q k e)
    (hnearest : ∀ l f, Fits as q l f → f.block ≤ e.block) {l : Nat} {f : Definition κ ν}
    (hf : Fits (as ++ [make d]) q l f)
    (hnearest' : ∀ m g, Fits (as ++ [make d]) q m g → g.block ≤ f.block) :
    run (as ++ [use q] ++ [make d]) = run (as ++ [make d] ++ [use q]) ∧
      (outcomes (as ++ [use q] ++ [make d])).Perm (outcomes as ++ woken as d ++ [delivered e q]) ∧
      (outcomes (as ++ [make d] ++ [use q])).Perm
        (outcomes as ++ woken as d ++ [delivered f q]) := by
  obtain ⟨huse, hfinds⟩ := use_finds hq he hnearest
  obtain ⟨hlate, hwoken⟩ := make_after_use (q := q) hd
  obtain ⟨hearly, hwoken'⟩ := make_before_use hd
  have hq' : q.path = openers (as ++ [make d]) := by rw [openers_make, hq]
  obtain ⟨hlast, hfinds'⟩ := use_finds hq' hf hnearest'
  rw [hlate, hlast, hearly, huse]
  refine ⟨rfl, ?_, ?_⟩
  · -- the requirement is decided before the ones that the definition wakes
    rw [hfinds, huse] at hwoken
    refine hwoken.trans ?_
    rw [List.append_assoc, List.append_assoc]
    exact List.perm_append_comm.append_left _
  · rw [hfinds']
    exact hwoken'.append_right _

/-- What the two orders decide stays apart from what is decided before and after. -/
theorem exchange_after {mine others : List (Outcome ν τ)}
    (hrun : run (as ++ [use q] ++ [make d]) = run (as ++ [make d] ++ [use q]))
    (huse : (outcomes (as ++ [use q] ++ [make d])).Perm (outcomes as ++ woken as d ++ mine))
    (hmake : (outcomes (as ++ [make d] ++ [use q])).Perm (outcomes as ++ woken as d ++ others))
    (after : List (Action κ ν τ)) :
    run (as ++ [use q] ++ [make d] ++ after) = run (as ++ [make d] ++ [use q] ++ after) ∧
      ∃ rest, (outcomes (as ++ [use q] ++ [make d] ++ after)).Perm (mine ++ rest) ∧
        (outcomes (as ++ [make d] ++ [use q] ++ after)).Perm (others ++ rest) := by
  obtain ⟨hstate, rest, husing, hmaking⟩ := outcomes_append_of_run_eq hrun after
  have hfront : ∀ answers : List (Outcome ν τ), (outcomes as ++ woken as d ++ answers ++ rest).Perm
      (answers ++ (outcomes as ++ woken as d ++ rest)) := by
    intro answers
    rw [← List.append_assoc]
    exact List.perm_append_comm.append_right rest
  rw [husing, hmaking]
  exact ⟨hstate, outcomes as ++ woken as d ++ rest, (huse.append_right rest).trans (hfront mine),
    (hmake.append_right rest).trans (hfront others)⟩

end Exchange

/-- What exchanging a requirement and a definition that is made next to it leads to. -/
structure Exchanged (before after : List (Action κ ν τ)) (q : Requirement κ τ)
    (d : Definition κ ν) : Prop where
  /-- The definition is taken in the other order too. -/
  taken : Stores (before ++ [use q] ++ [make d] ++ after) (before.length + 1) d
  /-- The state in the end is the same. -/
  state : run (before ++ [use q] ++ [make d] ++ after)
    = run (before ++ [make d] ++ [use q] ++ after)
  /-- Every requirement receives the same, unless the definition shadows what is in sight. -/
  same : ¬Shadows before q d →
    (outcomes (before ++ [use q] ++ [make d] ++ after)).Perm
      (outcomes (before ++ [make d] ++ [use q] ++ after))
  /-- If it does, made first the requirement receives the nearest definition in sight, and made
      second the one that shadows it, and every other requirement receives the same. -/
  shadowed : Shadows before q d →
    ∃ k e rest, Fits before q k e ∧ (∀ l f, Fits before q l f → f.block ≤ e.block) ∧
      (outcomes (before ++ [use q] ++ [make d] ++ after)).Perm (delivered e q :: rest) ∧
      (outcomes (before ++ [make d] ++ [use q] ++ after)).Perm (delivered d q :: rest)
  /-- With nothing in sight, a requirement receives a definition that meets it in both orders. -/
  alone : (∀ k e, ¬Fits before q k e) → q.MetBy d →
    delivered d q ∈ outcomes (before ++ [use q] ++ [make d] ++ after) ∧
      delivered d q ∈ outcomes (before ++ [make d] ++ [use q] ++ after)

/-- Of the definitions that fit, one is the nearest. -/
theorem exists_nearest {as : List (Action κ ν τ)} {q : Requirement κ τ} (hq : q.path = openers as)
    {k : Nat} {e : Definition κ ν} (he : Fits as q k e) :
    ∃ l d, Fits as q l d ∧ ∀ m f, Fits as q m f → f.block ≤ d.block := by
  obtain ⟨l, d, hd, hnearest, -⟩ | ⟨hnone, -⟩ := act_of_asks hq (List.ne_nil_of_mem he.2.2.1)
  · exact ⟨l, d, hd, hnearest⟩
  · exact absurd he (hnone k e)

/-- **Exchanging a requirement with a definition** that is made next to it leaves the state, and
    what every requirement receives, as they are, unless the definition shadows what the
    requirement finds without it. -/
theorem exchange_use_make {before : List (Action κ ν τ)} {q : Requirement κ τ} {d : Definition κ ν}
    (hq : q.path = openers before) (hd : Stores (before ++ [make d]) before.length d)
    (after : List (Action κ ν τ)) : Exchanged before after q d := by
  have htaken : Stores (before ++ [use q] ++ [make d] ++ after) (before.length + 1) d := by
    have hlate := stores_after_use hd q
    rw [List.length_append, List.length_singleton] at hlate
    exact (stores_append _ after hlate.lt d).mpr hlate
  by_cases hsight : ∃ k e, Fits before q k e
  · obtain ⟨k, e, he, hnearest⟩ := exists_nearest hq hsight.choose_spec.choose_spec
    have halone : ¬∀ k e, ¬Fits before q k e := fun hnone => hnone k e he
    by_cases hshadows : Shadows before q d
    · -- the nearest with the definition is the definition
      have hf := (fits_make_iff hd q before.length d).mpr (.inr ⟨rfl, rfl, hshadows.1⟩)
      have hnearest' : ∀ m g, Fits (before ++ [make d]) q m g → g.block ≤ d.block := by
        intro m g hg
        obtain hbefore | ⟨-, rfl, -⟩ := (fits_make_iff hd q m g).mp hg
        · exact Nat.le_of_lt (hshadows.2.2 m g hbefore)
        · exact Nat.le_refl _
      obtain ⟨hrun, huse, hmake⟩ := exchange_fits hq hd he hnearest hf hnearest'
      obtain ⟨hstate, rest, husing, hmaking⟩ := exchange_after hrun huse hmake after
      exact ⟨htaken, hstate, fun hnot => absurd hshadows hnot,
        fun _ => ⟨k, e, rest, he, hnearest, husing, hmaking⟩, fun hnone => absurd hnone halone⟩
    · -- the nearest with the definition is the nearest without it
      have hf := (fits_make_iff hd q k e).mpr (.inl he)
      have hnearest' : ∀ m g, Fits (before ++ [make d]) q m g → g.block ≤ e.block := by
        intro m g hg
        obtain hbefore | ⟨-, rfl, hmet⟩ := (fits_make_iff hd q m g).mp hg
        · exact hnearest m g hbefore
        · by_contra hlt
          refine hshadows ⟨hmet, ⟨k, e, he⟩, fun l f hl => ?_⟩
          exact Nat.lt_of_le_of_lt (hnearest l f hl) (Nat.lt_of_not_le hlt)
      obtain ⟨hrun, huse, hmake⟩ := exchange_fits hq hd he hnearest hf hnearest'
      obtain ⟨hstate, rest, husing, hmaking⟩ := exchange_after hrun huse hmake after
      exact ⟨htaken, hstate, fun _ => husing.trans hmaking.symm,
        fun hyes => absurd hyes hshadows, fun hnone => absurd hnone halone⟩
  · have hunfit : ∀ k e, ¬Fits before q k e := fun k e he => hsight ⟨k, e, he⟩
    have hshadows : ¬Shadows before q d := fun hyes => hsight hyes.2.1
    by_cases hmet : q.MetBy d
    · obtain ⟨hrun, huse, hmake⟩ := exchange_met hq hd hunfit hmet
      obtain ⟨hstate, rest, husing, hmaking⟩ := exchange_after hrun huse hmake after
      exact ⟨htaken, hstate, fun _ => husing.trans hmaking.symm,
        fun hyes => absurd hyes hshadows,
        fun _ _ => ⟨husing.symm.subset List.mem_cons_self, hmaking.symm.subset List.mem_cons_self⟩⟩
    · obtain ⟨hrun, huse, hmake⟩ := exchange_unmet hq hd hunfit hmet
      rw [← List.append_nil (outcomes before ++ woken before d)] at huse hmake
      obtain ⟨hstate, rest, husing, hmaking⟩ := exchange_after hrun huse hmake after
      exact ⟨htaken, hstate, fun _ => husing.trans hmaking.symm,
        fun hyes => absurd hyes hshadows, fun _ hyes => absurd hyes hmet⟩

/-! ### A definition that shadows another -/

/-- Something that is defined or required, at no place in particular. -/
def nowhereNode : Node := .atom { value := "x", quoted := false, location := .nowhere }

/-- An inner block opens, with a definition of `x` in the outer one. -/
def innerBlock : List (Action ReferenceKind String Nat) :=
  [.push [.any], .define nowhereNode "x" ⟨"thing"⟩ "outer", .push [.any]]

/-- What is required in the inner block. -/
def innerRequirement : Requirement ReferenceKind Nat :=
  { path := [2, 0], id := "x", kind := ⟨"thing"⟩, origin := nowhereNode, tag := 0 }

/-- What is defined in the inner block. -/
def innerDefinition : Definition ReferenceKind String :=
  { block := 2, id := "x", kind := ⟨"thing"⟩, value := "inner", origin := nowhereNode }

theorem exchange_use_make_shadowing :
    innerRequirement.path = openers innerBlock ∧
      Stores (innerBlock ++ [make innerDefinition]) innerBlock.length innerDefinition ∧
      Exchanged innerBlock [.pop, .pop] innerRequirement innerDefinition := by
  have hd : Stores (innerBlock ++ [make innerDefinition]) innerBlock.length innerDefinition :=
    ⟨rfl, rfl, rfl⟩
  exact ⟨rfl, hd, exchange_use_make rfl hd [.pop, .pop]⟩

/-- **The order matters** when the definition shadows one that is in sight. The definition is taken
    in either order, and the outermost block closes in the end, but the requirement in the inner
    block receives the outer definition before the inner one is made, and the inner one after. -/
theorem exchange_matters :
    let useFirst := innerBlock ++ [use innerRequirement] ++ [make innerDefinition] ++ [.pop, .pop]
    let makeFirst := innerBlock ++ [make innerDefinition] ++ [use innerRequirement] ++ [.pop, .pop]
    Stores useFirst 4 innerDefinition ∧ Stores makeFirst 3 innerDefinition ∧
      Asks useFirst 3 innerRequirement ∧ Asks makeFirst 4 innerRequirement ∧
      ClosesAll useFirst 6 ∧ ClosesAll makeFirst 6 ∧
      outcomes useFirst = [{ tag := 0, result := .ok "outer" }] ∧
      outcomes makeFirst = [{ tag := 0, result := .ok "inner" }] := by
  refine ⟨⟨rfl, rfl, rfl⟩, ⟨rfl, rfl, rfl⟩, ⟨rfl, rfl⟩, ⟨rfl, rfl⟩, ⟨rfl, rfl⟩, ⟨rfl, rfl⟩, ?_, ?_⟩
  · cbv
  · cbv

end Resolver

end Formwork
