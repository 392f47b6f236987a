import Mathlib.Tactic.IntervalCases
import Formwork.Proofs.Resolver.History
import Formwork.References

namespace Formwork

/-!
# Each requirement is decided once

What a requirement receives, for every history of calls: the nearest definition in sight when it is
made, or else the first that comes into one of its blocks later, or else an error when the
outermost block closes.

* `Resolver.Waiting`, `Resolver.Decided` — the two ways in which a requirement stands.
* `Resolver.standing` — one of them holds after every history: a call keeps what is decided, and
  what waits goes on waiting or is decided by the call.
* `Resolver.requirement_decided_once` — what a requirement receives, and when.
-/

variable {κ ν τ : Type} [Kind κ]

namespace Resolver

/-! ### What a tag receives -/

section Tags

variable [DecidableEq τ]

/-- What is received under a tag, each with the place of the call that decides it. -/
def received (as : List (Action κ ν τ)) (tag : τ) : List (Nat × Except Unresolved ν) :=
  (decisions as).filterMap fun (k, o) => if o.tag = tag then some (k, o.result) else none

theorem received_snoc (as : List (Action κ ν τ)) (a : Action κ ν τ) (tag : τ) :
    received (as ++ [a]) tag = received as tag ++
      (under tag ((run as).act a).outcomes).map fun o => (as.length, o.result) := by
  unfold received under
  rw [decisions_snoc, List.filterMap_append, List.filterMap_map, ← List.filterMap_eq_map,
    List.filterMap_filter]
  congr 1
  apply List.filterMap_congr
  intro o _
  by_cases ho : o.tag = tag <;> simp [ho]

/-- Under a tag that no call has used, nothing waits and nothing was received. -/
theorem unused_tag {as : List (Action κ ν τ)} {tag : τ}
    (hunused : ∀ origin id kind, .resolve origin id kind tag ∉ as) :
    (run as).pending tag = [] ∧ received as tag = [] := by
  induction as using List.reverseRecOn with
  | nil => exact ⟨rfl, rfl⟩
  | append_singleton as a ih =>
    obtain ⟨hpending, hreceived⟩ := ih fun origin id kind hmem =>
      hunused origin id kind (List.mem_append_left [a] hmem)
    obtain ⟨hstill, hnothing⟩ := (last_does as a).none_pending hpending fun origin id kind heq =>
      hunused origin id kind (by simp [heq])
    rw [run_snoc, received_snoc, hreceived, hnothing]
    exact ⟨hstill, rfl⟩

/-! ### How a requirement stands -/

/-- A requirement waits: nothing fits it so far, and the blocks around it are still of the document
    that is open. -/
structure Waiting (as : List (Action κ ν τ)) (i : Nat) (q : Requirement κ τ) : Prop where
  pending : (run as).pending q.tag = [placedRequirement as q]
  nothing : received as q.tag = []
  unfit : ∀ k d, ¬Fits as q k d
  unclosed : ∀ m, i < m → ¬ClosesAll as m
  blocks : ∀ j ∈ q.path, IsBlock as j

/-- What a requirement that is decided has received, and why. -/
inductive Decided (as : List (Action κ ν τ)) (i : Nat) (q : Requirement κ τ) :
    List (Nat × Except Unresolved ν) → Prop where
  /-- At once the nearest of what fits already, -/
  | atOnce (k : Nat) (d : Definition κ ν) (hk : k < i) (hfits : Fits as q k d)
      (hnearest : ∀ l < i, ∀ e, Fits as q l e → e.block ≤ d.block) :
      Decided as i q [(i, .ok d.value)]
  /-- or later the first that fits, -/
  | later (k : Nat) (d : Definition κ ν) (hk : i < k) (hfits : Fits as q k d)
      (hfirst : ∀ l < k, ∀ e, ¬Fits as q l e) (hopen : ∀ m, i < m → m < k → ¬ClosesAll as m) :
      Decided as i q [(k, .ok d.value)]
  /-- or a failure, as the outermost block closes. -/
  | fails (m : Nat) (u : Unresolved) (hm : i < m) (hclose : ClosesAll as m)
      (hfirst : ∀ l, i < l → l < m → ¬ClosesAll as l) (hunfit : ∀ k d, ¬Fits as q k d)
      (hid : u.id = q.id) (horigin : u.origin = q.origin)
      (hexpected : u.expected = Kind.text q.kind) :
      Decided as i q [(m, .error u)]

/-! ### One call more -/

omit [DecidableEq τ] in
/-- When nothing fitted before and the last call does not fit either, nothing fits. -/
theorem unfit_snoc {as : List (Action κ ν τ)} {a : Action κ ν τ} {q : Requirement κ τ}
    (hunfit : ∀ k d, ¬Fits as q k d)
    (hlast : ∀ d, Stores (as ++ [a]) as.length d → ¬q.MetBy d) :
    ∀ k d, ¬Fits (as ++ [a]) q k d := by
  rintro k d ⟨hstores, hmet⟩
  obtain hbefore | ⟨-, hnew⟩ := (last_stores_iff k d).mp hstores
  · exact hunfit k d ⟨hbefore, hmet⟩
  · exact hlast d hnew hmet

omit [Kind κ] [DecidableEq τ] in
/-- When the outermost block stayed open and the last call leaves it open, it stays open. -/
theorem unclosed_snoc {as : List (Action κ ν τ)} {a : Action κ ν τ} {i : Nat}
    (hunclosed : ∀ m, i < m → ¬ClosesAll as m) (hopen : ¬ClosesAll (as ++ [a]) as.length) :
    ∀ m, i < m → ¬ClosesAll (as ++ [a]) m := by
  intro m him hclose
  have hlt : m < as.length + 1 := by simpa using (List.getElem?_eq_some_iff.mp hclose.1).1
  obtain hlt | rfl := Nat.lt_or_eq_of_le (Nat.le_of_lt_succ hlt)
  · exact hunclosed m him ((closesAll_append as [a] hlt).mp hclose)
  · exact hopen hclose

omit [Kind κ] [DecidableEq τ] in
/-- When it stays open to the end, it was open before the last call. -/
theorem unclosed_of_snoc {as : List (Action κ ν τ)} {a : Action κ ν τ} {i : Nat}
    (hunclosed : ∀ m, i < m → ¬ClosesAll (as ++ [a]) m) : ∀ m, i < m → ¬ClosesAll as m := by
  intro m him hclose
  have hlt : m < as.length := (List.getElem?_eq_some_iff.mp hclose.1).1
  exact hunclosed m him ((closesAll_append as [a] hlt).mpr hclose)

omit [DecidableEq τ] in
/-- Once the outermost block has closed, no definition goes to a block that was open before. -/
theorem Fits.lt_of_closesAll {as : List (Action κ ν τ)} {q : Requirement κ τ} {i k m : Nat}
    {d : Definition κ ν} (hfits : Fits as q k d) (hblocks : ∀ j ∈ q.path, j < i) (hm : i < m)
    (hclose : ClosesAll as m) : k < m := by
  by_contra hle
  -- its block would be open again after the outermost block has closed
  have hopen := hfits.1.mem_openers
  have hblock : d.block < i := hblocks d.block hfits.2.2.1
  have hne : k ≠ m := by
    rintro rfl
    have hdefine := hfits.1.1
    rw [hclose.1] at hdefine
    simp at hdefine
  have hlt : m < (as.take k).length := by
    have := hfits.lt
    simp only [List.length_take]
    omega
  have hclose : ClosesAll (as.take k) m := by
    rw [← closesAll_append (as.take k) (as.drop k) hlt, List.take_append_drop]
    exact hclose
  exact hclose.not_mem_openers (by omega) hopen

omit [DecidableEq τ] in
/-- What is decided stays so. -/
theorem Decided.snoc {as : List (Action κ ν τ)} {a : Action κ ν τ} {i : Nat} {q : Requirement κ τ}
    {answers : List (Nat × Except Unresolved ν)} (h : Decided as i q answers)
    (hi : i < as.length) (hblocks : ∀ j ∈ q.path, j < i) : Decided (as ++ [a]) i q answers := by
  -- each way of being decided is about actions before the new one, which the new one leaves as they
  -- are
  cases h with
  | atOnce k d hk hfits hnearest =>
    refine .atOnce k d hk ((fits_append as [a] q hfits.lt d).mpr hfits) ?_
    intro l hl e he
    exact hnearest l hl e ((fits_append as [a] q (Nat.lt_trans hl hi) e).mp he)
  | later k d hk hfits hfirst hopen =>
    have hlt := hfits.lt
    refine .later k d hk ((fits_append as [a] q hlt d).mpr hfits) ?_ ?_
    · intro l hl e he
      exact hfirst l hl e ((fits_append as [a] q (Nat.lt_trans hl hlt) e).mp he)
    · intro m him hmk hclose
      exact hopen m him hmk ((closesAll_append as [a] (Nat.lt_trans hmk hlt)).mp hclose)
  | fails m u hm hclose hfirst hunfit hid horigin hexpected =>
    have hlt : m < as.length := (List.getElem?_eq_some_iff.mp hclose.1).1
    have hclose' := (closesAll_append as [a] hlt).mpr hclose
    refine .fails m u hm hclose' ?_ ?_ hid horigin hexpected
    · intro l hil hlm hl
      exact hfirst l hil hlm ((closesAll_append as [a] (Nat.lt_trans hlm hlt)).mp hl)
    · intro k d hfits
      have hkm := hfits.lt_of_closesAll hblocks hm hclose'
      exact hunfit k d ((fits_append as [a] q (Nat.lt_trans hkm hlt) d).mp hfits)

/-- A call that does not decide a requirement leaves it waiting. -/
theorem Waiting.snoc {as : List (Action κ ν τ)} {a : Action κ ν τ} {i : Nat} {q : Requirement κ τ}
    (h : Waiting as i q) (hpending : ((run as).act a).after.pending q.tag = (run as).pending q.tag)
    (hnothing : under q.tag ((run as).act a).outcomes = [])
    (hopen : ¬ClosesAll (as ++ [a]) as.length)
    (hlast : ∀ d, Stores (as ++ [a]) as.length d → ¬q.MetBy d) : Waiting (as ++ [a]) i q where
  pending := by
    rw [run_snoc, hpending, h.pending, placedRequirement_append]
    intro j hj
    obtain ⟨-, kinds, hpush⟩ := h.blocks j hj
    exact (List.getElem?_eq_some_iff.mp hpush).1
  nothing := by rw [received_snoc, hnothing, h.nothing]; rfl
  unfit := unfit_snoc h.unfit hlast
  unclosed := unclosed_snoc h.unclosed hopen
  blocks := fun j hj => isBlock_snoc (h.blocks j hj) hopen

/-- Popping fails a requirement that waits when it closes the outermost block. -/
theorem Waiting.pop {as : List (Action κ ν τ)} {i : Nat} {q : Requirement κ τ}
    (h : Waiting as i q) (hi : i < as.length) :
    Waiting (as ++ [.pop]) i q ∨ (run (as ++ [.pop])).pending q.tag = [] ∧
      Decided (as ++ [.pop]) i q (received (as ++ [.pop]) q.tag) := by
  have hdoes := last_does as .pop
  have hlast : ∀ d, ¬Stores (as ++ [.pop]) as.length d := not_stores_last (by simp)
  generalize heffect : (run as).act .pop = e at hdoes
  cases hdoes with
  -- without an open block nothing closes, so the requirement waits on
  | popsNothing hnone =>
    have hopen : ¬ClosesAll (as ++ [.pop]) as.length := by
      rw [closesAll_last, ← run_blocks_length, hnone]
      simp
    exact .inl (h.snoc (by rw [heffect]) (by rw [heffect]; rfl) hopen
      fun d hd => absurd hd (hlast d))
  -- the outermost block closes: the requirement fails, as nothing fitted while it waited
  | closesLast b hone =>
    have hclose : ClosesAll (as ++ [.pop]) as.length := by
      rw [closesAll_last, ← run_blocks_length, hone]
      exact ⟨rfl, rfl⟩
    have hfailed : under q.tag ((run as).waiting.map (run as).failure)
        = [(run as).failure (placedRequirement as q)] := by
      rw [under_failures, h.pending, List.map_singleton]
    right
    rw [run_snoc, received_snoc, heffect, hfailed, h.nothing]
    have hunfit := unfit_snoc h.unfit fun d hd => absurd hd (hlast d)
    refine ⟨rfl, .fails as.length _ hi hclose ?_ hunfit rfl rfl rfl⟩
    intro l hil hl hbefore
    exact h.unclosed l hil ((closesAll_append as [.pop] hl).mp hbefore)
  -- an inner block closes, which hands what waits in it to the block around it
  | closes b blocks hne hfirst =>
    have hopen : ¬ClosesAll (as ++ [.pop]) as.length := by
      rw [closesAll_last, ← run_blocks_length, hfirst]
      simpa using hne
    exact .inl (h.snoc (by rw [heffect]; rfl) (by rw [heffect]; rfl) hopen
      fun d hd => absurd hd (hlast d))

/-- Defining decides a requirement that waits when the definition meets it. -/
theorem Waiting.define {as : List (Action κ ν τ)} {i : Nat} {q : Requirement κ τ}
    (h : Waiting as i q) (hi : i < as.length) (origin : Node) (id : String) (kind : κ) (value : ν) :
    Waiting (as ++ [.define origin id kind value]) i q ∨
      (run (as ++ [.define origin id kind value])).pending q.tag = [] ∧
      Decided (as ++ [.define origin id kind value]) i q
        (received (as ++ [.define origin id kind value]) q.tag) := by
  have hdoes := last_does as (.define origin id kind value)
  have hopen : ¬ClosesAll (as ++ [.define origin id kind value]) as.length :=
    not_closesAll_last (by simp)
  generalize heffect : (run as).act (.define origin id kind value) = e at hdoes
  cases hdoes with
  | refuses _ _ _ _ report hwhy =>
    refine .inl (h.snoc (by rw [heffect]) (by rw [heffect]; rfl) hopen fun d hd => ?_)
    have hreport := (stores_last.mp hd).2.1
    rw [heffect] at hreport
    simp at hreport
  | stores b d outcomes hblock htaken hnew hmet =>
    -- the resolver compares numbers of blocks, and the calls compare the blocks
    obtain ⟨d, hd, rfl⟩ := exists_stores hblock htaken (by rw [heffect])
    have hin := isBlock_of_mem_openers (mem_openers_of_stores_last hd)
    have hunder := under_delivered hmet q.tag
    have hstill := pending_store (run as) (placed as d) q.tag
    rw [h.pending] at hunder hstill
    by_cases hfit : q.MetBy d
    · -- the definition meets the requirement, and is the first that does
      have hplaced := (metBy_placed_iff h.blocks hin).mpr hfit
      simp only [List.filter_cons, List.filter_nil, hplaced, decide_true, not_true, decide_false,
        if_true, Bool.false_eq_true, if_false, List.map_cons, List.map_nil, List.perm_singleton]
        at hunder hstill
      right
      rw [run_snoc, received_snoc, heffect, hunder, h.nothing]
      refine ⟨hstill, .later as.length d hi ⟨hd, hfit⟩ ?_ ?_⟩
      · intro l hl e he
        exact h.unfit l e ((fits_append as _ q hl e).mp he)
      · intro m him hm hclose
        exact h.unclosed m him ((closesAll_append as _ hm).mp hclose)
    · have hplaced := mt (metBy_placed_iff h.blocks hin).mp hfit
      simp only [List.filter_cons, List.filter_nil, hplaced, decide_true, not_false_eq_true,
        decide_false, if_true, Bool.false_eq_true, if_false, List.map_nil, List.perm_nil]
        at hunder hstill
      refine .inl (h.snoc ?_ (by rw [heffect]; exact hunder) hopen fun e he => ?_)
      · rw [heffect, h.pending]
        exact hstill
      · rwa [he.unique hd]

/-- Making another requirement leaves one that waits as it is. -/
theorem Waiting.resolve {as : List (Action κ ν τ)} {i : Nat} {q : Requirement κ τ}
    (h : Waiting as i q) (origin : Node) (id : String) (kind : κ) {tag : τ} (htag : tag ≠ q.tag) :
    Waiting (as ++ [.resolve origin id kind tag]) i q := by
  have hdoes := last_does as (.resolve origin id kind tag)
  have hopen : ¬ClosesAll (as ++ [.resolve origin id kind tag]) as.length :=
    not_closesAll_last (by simp)
  -- what the other requirement receives, or waits for, is under another tag
  have hlast : ∀ d, Stores (as ++ [.resolve origin id kind tag]) as.length d → ¬q.MetBy d :=
    fun d hd => absurd hd (not_stores_last (by simp) d)
  generalize heffect : (run as).act (.resolve origin id kind tag) = e at hdoes
  cases hdoes with
  | finds =>
    exact h.snoc (by rw [heffect]) (by rw [heffect]; simp [under, htag]) hopen hlast
  | fails =>
    exact h.snoc (by rw [heffect]) (by rw [heffect]; simp [under, failure, required, htag])
      hopen hlast
  | waits =>
    refine h.snoc ?_ (by rw [heffect]; rfl) hopen hlast
    rw [heffect]
    simp [Resolver.pending, required, htag]

/-- **What a call makes of a requirement that waits:** it decides it, or leaves it waiting. -/
theorem Waiting.step {as : List (Action κ ν τ)} {a : Action κ ν τ} {i : Nat} {q : Requirement κ τ}
    (h : Waiting as i q) (hi : i < as.length)
    (hother : ∀ origin id kind, a ≠ .resolve origin id kind q.tag) :
    Waiting (as ++ [a]) i q ∨ (run (as ++ [a])).pending q.tag = [] ∧
      Decided (as ++ [a]) i q (received (as ++ [a]) q.tag) := by
  cases a with
  | push kinds =>
    exact .inl (h.snoc rfl rfl (not_closesAll_last (by simp)) fun d hd =>
      absurd hd (not_stores_last (by simp) d))
  | pop => exact h.pop hi
  | define origin id kind value => exact h.define hi origin id kind value
  | resolve origin id kind tag =>
    have htag : tag ≠ q.tag := fun heq => hother origin id kind (by rw [heq])
    exact .inl (h.resolve origin id kind htag)

/-! ### Every history -/

/-- When a requirement is made in a block, it receives the nearest definition that fits, or
    waits. -/
theorem asked {as : List (Action κ ν τ)} {a : Action κ ν τ} {q : Requirement κ τ}
    (hasks : Asks (as ++ [a]) as.length q) (hopen : q.path ≠ [])
    (hunused : ∀ origin id kind, .resolve origin id kind q.tag ∉ as) :
    Waiting (as ++ [a]) as.length q ∨ (run (as ++ [a])).pending q.tag = [] ∧
      Decided (as ++ [a]) as.length q (received (as ++ [a]) q.tag) := by
  obtain ⟨hcall, hpath⟩ := hasks
  rw [List.take_left] at hpath
  obtain rfl : a = .resolve q.origin q.id q.kind q.tag := by simpa using hcall
  obtain ⟨hpending, hnothing⟩ := unused_tag hunused
  have hlast : ∀ d, ¬Stores (as ++ [.resolve q.origin q.id q.kind q.tag]) as.length d :=
    not_stores_last (by simp)
  -- the new action stores nothing, so it brings nothing that would fit
  have hfits : ∀ k d,
      Fits (as ++ [.resolve q.origin q.id q.kind q.tag]) q k d ↔ Fits as q k d := by
    intro k d
    refine and_congr_left' ((last_stores_iff k d).trans ?_)
    simp [hlast d]
  obtain ⟨k, d, hd, hnearest, heffect⟩ | ⟨hunfit, heffect⟩ := act_of_asks hpath hopen
  · right
    rw [run_snoc, received_snoc, heffect, hnothing]
    refine ⟨hpending, ?_⟩
    have hreceived : under q.tag [delivered d q] = [delivered d q] := by simp [under, delivered]
    rw [hreceived]
    refine .atOnce k d hd.lt ((hfits k d).mpr hd) ?_
    intro l _ e he
    exact hnearest l e ((hfits l e).mp he)
  · have hblocks := isBlock_of_openers hpath
    have hclosed : ¬ClosesAll (as ++ [.resolve q.origin q.id q.kind q.tag]) as.length :=
      not_closesAll_last (by simp)
    left
    refine
      { pending := ?_
        nothing := by rw [received_snoc, heffect, hnothing]; rfl
        unfit := fun k d => mt (hfits k d).mp (hunfit k d)
        unclosed := ?_
        blocks := fun j hj => isBlock_snoc (hblocks j hj) hclosed }
    · rw [run_snoc, heffect, placedRequirement_append fun j hj => lt_of_mem_openers (hpath ▸ hj)]
      show ((run as).waiting ++ [placedRequirement as q]).filter _ = _
      have hwaiting : ((run as).waiting.filter fun p => p.tag = q.tag) = [] := hpending
      rw [List.filter_append, hwaiting]
      simp [placedRequirement]
    · intro m hm hclose
      have := (List.getElem?_eq_some_iff.mp hclose.1).1
      simp only [List.length_append, List.length_singleton] at this
      omega

/-- **How a requirement stands** after any calls: it waits, or it has been decided. -/
theorem standing {as : List (Action κ ν τ)} {i : Nat} {q : Requirement κ τ} (hasks : Asks as i q)
    (hopen : q.path ≠ []) (htag : ∀ k p, Asks as k p → p.tag = q.tag → k = i) :
    Waiting as i q ∨ (run as).pending q.tag = [] ∧ Decided as i q (received as q.tag) := by
  induction as using List.reverseRecOn with
  | nil => simp [Asks] at hasks
  | append_singleton as a ih =>
    have hearlier : ∀ k p, k < as.length → (Asks (as ++ [a]) k p ↔ Asks as k p) := by
      intro k p hk
      rw [Asks, Asks, List.getElem?_append_left hk, take_of_lt as [a] hk]
    have hlt : i < as.length + 1 := by
      simpa using (List.getElem?_eq_some_iff.mp hasks.1).1
    obtain hlt | rfl := Nat.lt_or_eq_of_le (Nat.le_of_lt_succ hlt)
    · -- the requirement was made before the last call
      have hother : ∀ origin id kind, a ≠ .resolve origin id kind q.tag := by
        rintro origin id kind rfl
        have heq := htag as.length
          { path := openers as, id, kind, origin, tag := q.tag } (by simp [Asks]) rfl
        omega
      have hpath : ∀ j ∈ q.path, j < i := by
        intro j hj
        rw [hasks.2] at hj
        have hj := lt_of_mem_openers hj
        simp only [List.length_take] at hj
        omega
      have hbefore := ih ((hearlier i q hlt).mp hasks) fun k p hk =>
        htag k p ((hearlier k p (List.getElem?_eq_some_iff.mp hk.1).1).mpr hk)
      obtain hwaiting | ⟨hpending, hdecided⟩ := hbefore
      · exact hwaiting.step hlt hother
      · -- nothing waits under the tag any more, so nothing else is received
        obtain ⟨hstill, hnothing⟩ := (last_does as a).none_pending hpending hother
        right
        rw [run_snoc, received_snoc, hnothing, List.map_nil, List.append_nil]
        exact ⟨hstill, hdecided.snoc hlt hpath⟩
    · -- the last call makes it, and no call before has used its tag
      refine asked hasks hopen fun origin id kind hmem => ?_
      obtain ⟨k, hk, hget⟩ := List.getElem_of_mem hmem
      have heq := htag k { path := openers (as.take k), id, kind, origin, tag := q.tag }
        ((hearlier k _ hk).mpr ⟨by rw [List.getElem?_eq_getElem hk, hget], rfl⟩) rfl
      omega

end Tags

/-! ### Calls that report -/

theorem mem_decisions {as : List (Action κ ν τ)} {m : Nat} {o : Outcome ν τ} :
    (m, o) ∈ decisions as ↔ ∃ a, as[m]? = some a ∧ o ∈ ((run (as.take m)).act a).outcomes := by
  unfold decisions
  rw [List.mem_flatMap]
  constructor
  · rintro ⟨⟨a, k⟩, ha, ho⟩
    obtain ⟨o', ho', heq⟩ := List.mem_map.mp ho
    obtain ⟨rfl, rfl⟩ := Prod.mk.inj heq
    exact ⟨a, List.mem_zipIdx_iff_getElem?.mp ha, ho'⟩
  · rintro ⟨a, ha, ho⟩
    exact ⟨(a, m), List.mem_zipIdx_iff_getElem?.mpr ha, List.mem_map_of_mem ho⟩

/-- What a call that reports leads to: nothing is changed, nothing is decided, and the report says
    either that no open block takes the definition, or which earlier one its block has. -/
structure Refused (as : List (Action κ ν τ)) (m : Nat) (report : Report) : Prop where
  unchanged : run (as.take (m + 1)) = run (as.take m)
  undecided : ∀ o, (m, o) ∉ decisions as
  why : (∃ origin id kind value, as[m]? = some (.define origin id kind value) ∧
      taker? (as.take m) kind = none ∧
      report = .atNode (.noAcceptingScope id (Kind.text kind)) origin) ∨
    ∃ origin id kind value block l first, as[m]? = some (.define origin id kind value) ∧
      taker? (as.take m) kind = some block ∧ l < m ∧ Stores as l first ∧ first.block = block ∧
      first.id = id ∧
      report = { problem := .duplicateDefinition id, nodes := [origin, first.origin] }

/-- A block has a definition of an identifier when a call has put one there. -/
theorem exists_stores_of_definition? {as : List (Action κ ν τ)} {id : String} {j : Nat}
    (hj : j ∈ openers as) {e : Definition κ ν}
    (he : (run as).definition? id (number as j) = some e) :
    ∃ l d, Stores as l d ∧ d.block = j ∧ d.id = id ∧ d.origin = e.origin := by
  obtain ⟨hmem, hblock, hid⟩ := of_definition?_eq_some he
  obtain ⟨l, d, hd, hin, rfl⟩ := (mem_run_definitions as e).mp hmem
  have hsame : number as d.block = number as j := hblock
  refine ⟨l, d, hd, ?_, hid, rfl⟩
  exact (IsBlock.number_eq_iff ⟨hin, hd.push⟩ (isBlock_of_mem_openers hj)).mp hsame

/-- Why the resolver does not take a definition. -/
theorem define_eq_error {as : List (Action κ ν τ)} {origin : Node} {id : String} {kind : κ}
    {value : ν} {report : Report}
    (hwhy : (run as).define origin id kind value = .error report) :
    (taker? as kind = none ∧ report = .atNode (.noAcceptingScope id (Kind.text kind)) origin) ∨
      ∃ block l first, taker? as kind = some block ∧ Stores as l first ∧ first.block = block ∧
        first.id = id ∧
        report = { problem := .duplicateDefinition id, nodes := [origin, first.origin] } := by
  unfold define at hwhy
  rw [run_accepting?] at hwhy
  -- a definition is refused in two ways: no block takes it, or the block that does has its
  -- identifier
  cases htaker : taker? as kind with
  | none =>
    simp only [htaker, Option.map_none, Except.error.injEq] at hwhy
    exact .inl ⟨rfl, hwhy.symm⟩
  | some j =>
    simp only [htaker, Option.map_some] at hwhy
    cases hfirst : (run as).definition? id (blockOf as j).number with
    | none => simp [hfirst] at hwhy
    | some e =>
      simp only [hfirst, Except.error.injEq] at hwhy
      obtain ⟨l, d, hd, hblock, hid, horigin⟩ :=
        exists_stores_of_definition? (List.mem_of_find?_eq_some htaker) hfirst
      exact .inr ⟨j, l, d, rfl, hd, hblock, hid, by rw [horigin, hwhy]⟩

/-- **A call that reports** changes nothing and decides nothing. -/
theorem refused_of_report? {as : List (Action κ ν τ)} {m : Nat} {report : Report}
    (hreport : report? as m = some report) : Refused as m report := by
  obtain ⟨a, ha, hreport⟩ := Option.bind_eq_some_iff.mp hreport
  have hdoes := last_does (as.take m) a
  have hmem : ∀ o, (m, o) ∈ decisions as ↔ o ∈ ((run (as.take m)).act a).outcomes := by
    intro o
    rw [mem_decisions]
    simp [ha]
  have hafter : run (as.take (m + 1)) = ((run (as.take m)).act a).after := by
    rw [List.take_add_one, ha, Option.toList_some, run_snoc]
  generalize (run (as.take m)).act a = e at hdoes hreport hmem hafter
  cases hdoes with
  | refuses origin id kind value other hwhy =>
    obtain rfl : other = report := Option.some.inj hreport
    refine ⟨hafter, fun o ho => ?_, ?_⟩
    · exact List.not_mem_nil ((hmem o).mp ho)
    · obtain ⟨hnone, hsays⟩ | ⟨block, l, first, htaker, hstores, hblock, hid, hsays⟩ :=
        define_eq_error hwhy
      · exact .inl ⟨origin, id, kind, value, ha, hnone, hsays⟩
      · -- the first definition was made before the refused one, so it is there in the whole history
        have hlt := hstores.lt
        have hin : Stores as l first := by
          rw [← List.take_append_drop m as]
          exact (stores_append (as.take m) (as.drop m) hlt first).mpr hstores
        rw [List.length_take] at hlt
        exact .inr ⟨origin, id, kind, value, block, l, first, ha, htaker, by omega, hin, hblock,
          hid, hsays⟩
  -- no other action makes a report
  | opens | popsNothing | closesLast | closes | stores | finds | fails | waits => simp at hreport

/-! ### What a requirement receives -/

section Tags

variable [DecidableEq τ]

/-- What becomes of a requirement that is made by a call in some history. -/
structure DecidedOnce (as : List (Action κ ν τ)) (i : Nat) (q : Requirement κ τ) : Prop where
  /-- With something in sight, it receives the nearest at once: of the blocks around it, the
      innermost is the one that was opened last. -/
  inSight : (∃ k < i, ∃ d, Fits as q k d) →
    ∃ k < i, ∃ d, Fits as q k d ∧ (∀ l < i, ∀ e, Fits as q l e → e.block ≤ d.block) ∧
      received as q.tag = [(i, .ok d.value)]
  /-- With nothing in sight, it receives the first definition that fits, when that is made. -/
  later : (∀ l < i, ∀ e, ¬Fits as q l e) →
    ∀ k d, Fits as q k d → (∀ l < k, ∀ e, ¬Fits as q l e) →
      received as q.tag = [(k, .ok d.value)]
  /-- When nothing ever fits, it fails as the outermost block closes. -/
  never : (∀ k d, ¬Fits as q k d) →
    ∀ m, i < m → ClosesAll as m → (∀ l, i < l → l < m → ¬ClosesAll as l) →
      ∃ u, received as q.tag = [(m, .error u)] ∧ u.id = q.id ∧ u.origin = q.origin ∧
        u.expected = Kind.text q.kind
  /-- By the time the outermost block closes, it has received exactly one thing. -/
  once : ∀ m, i < m → ClosesAll as m →
    ∃ k result, received as q.tag = [(k, result)] ∧ i ≤ k ∧ k ≤ m
  /-- It never receives two. -/
  notTwice : (received as q.tag).length ≤ 1
  /-- What it receives was put into one of the blocks around it. -/
  fromAround : ∀ k v, (k, .ok v) ∈ received as q.tag → ∃ l ≤ k, ∃ d, Fits as q l d ∧ d.value = v

omit [DecidableEq τ] in
theorem Decided.length_eq {as : List (Action κ ν τ)} {i : Nat} {q : Requirement κ τ}
    {answers : List (Nat × Except Unresolved ν)} (h : Decided as i q answers) :
    answers.length = 1 := by
  cases h <;> rfl

omit [DecidableEq τ] in
/-- A value that is received was put into a block around the requirement. -/
theorem Decided.fits_of_mem {as : List (Action κ ν τ)} {i : Nat} {q : Requirement κ τ}
    {answers : List (Nat × Except Unresolved ν)} (h : Decided as i q answers) {k : Nat} {v : ν}
    (hmem : (k, .ok v) ∈ answers) : ∃ l ≤ k, ∃ d, Fits as q l d ∧ d.value = v := by
  cases h with
  | atOnce l d hl hfits =>
    obtain ⟨rfl, hv⟩ := Prod.mk.inj (List.mem_singleton.mp hmem)
    exact ⟨l, Nat.le_of_lt hl, d, hfits, (Except.ok.inj hv).symm⟩
  | later l d _ hfits =>
    obtain ⟨rfl, hv⟩ := Prod.mk.inj (List.mem_singleton.mp hmem)
    exact ⟨k, Nat.le_refl k, d, hfits, (Except.ok.inj hv).symm⟩
  | fails => simp at hmem

theorem Waiting.decidedOnce {as : List (Action κ ν τ)} {i : Nat} {q : Requirement κ τ}
    (h : Waiting as i q) : DecidedOnce as i q where
  inSight := fun ⟨k, _, d, hd⟩ => absurd hd (h.unfit k d)
  later := fun _ k d hd _ => absurd hd (h.unfit k d)
  never := fun _ m hm hclose _ => absurd hclose (h.unclosed m hm)
  once := fun m hm hclose => absurd hclose (h.unclosed m hm)
  notTwice := by rw [h.nothing]; exact Nat.zero_le 1
  fromAround := by rw [h.nothing]; exact fun _ _ hmem => absurd hmem List.not_mem_nil

theorem Decided.decidedOnce {as : List (Action κ ν τ)} {i : Nat} {q : Requirement κ τ}
    (h : Decided as i q (received as q.tag)) : DecidedOnce as i q := by
  have hlength := Nat.le_of_eq h.length_eq
  have haround : ∀ k v, (k, .ok v) ∈ received as q.tag →
      ∃ l ≤ k, ∃ d, Fits as q l d ∧ d.value = v :=
    fun _ _ hmem => h.fits_of_mem hmem
  generalize hreceived : received as q.tag = answers at h
  -- the three ways of being decided exclude each other; each settles the other two by contradiction
  cases h with
  | atOnce k d hk hfits hnearest =>
    exact
      { inSight := fun _ => ⟨k, hk, d, hfits, hnearest, hreceived⟩
        later := fun hnone => absurd hfits (hnone k hk d)
        never := fun hnone => absurd hfits (hnone k d)
        once := fun m hm _ => ⟨i, _, hreceived, Nat.le_refl i, Nat.le_of_lt hm⟩
        notTwice := hlength
        fromAround := haround }
  | later k d hk hfits hfirst hopen =>
    exact
      { inSight := fun ⟨l, hl, e, he⟩ => absurd he (hfirst l (Nat.lt_trans hl hk) e)
        later := by
          intro _ l e he hnone
          obtain hlk | rfl | hkl := Nat.lt_trichotomy l k
          · exact absurd he (hfirst l hlk e)
          · rw [hreceived, hfits.1.unique he.1]
          · exact absurd hfits (hnone k hkl d)
        never := fun hnone => absurd hfits (hnone k d)
        once := by
          intro m hm hclose
          refine ⟨k, _, hreceived, Nat.le_of_lt hk, ?_⟩
          -- had the outermost block closed first, the requirement would have failed there
          by_contra hmk
          exact hopen m hm (Nat.lt_of_not_le hmk) hclose
        notTwice := hlength
        fromAround := haround }
  | fails m u hm hclose hfirst hunfit hid horigin hexpected =>
    exact
      { inSight := fun ⟨k, _, d, hd⟩ => absurd hd (hunfit k d)
        later := fun _ k d hd _ => absurd hd (hunfit k d)
        never := by
          intro _ l hl hlclose hlfirst
          obtain hlm | rfl | hml := Nat.lt_trichotomy l m
          · exact absurd hlclose (hfirst l hl hlm)
          · exact ⟨u, hreceived, hid, horigin, hexpected⟩
          · exact absurd hclose (hlfirst m hm hml)
        once := by
          intro l hl hlclose
          refine ⟨m, _, hreceived, Nat.le_of_lt hm, ?_⟩
          -- the first close after the requirement is the one it fails at
          by_contra hml
          exact hfirst l hl (Nat.lt_of_not_le hml) hlclose
        notTwice := hlength
        fromAround := haround }

/-- **Each requirement is decided once.** For every history, a requirement that is made in an open
    block receives at once the nearest definition in sight, or later the first that is put into a
    block around it, or an error when the outermost block closes; and never anything else. A call
    that reports decides nothing and changes nothing. -/
theorem requirement_decided_once {as : List (Action κ ν τ)} {i : Nat} {q : Requirement κ τ}
    (hasks : Asks as i q) (hopen : q.path ≠ [])
    (htag : ∀ k p, Asks as k p → p.tag = q.tag → k = i) :
    DecidedOnce as i q ∧ ∀ m report, report? as m = some report → Refused as m report := by
  refine ⟨?_, fun m report hreport => refused_of_report? hreport⟩
  obtain hwaiting | ⟨-, hdecided⟩ := standing hasks hopen htag
  · exact hwaiting.decidedOnce
  · exact hdecided.decidedOnce

end Tags

/-! ### Two sibling blocks -/

/-- An atom that was never written anywhere. -/
def siteOf (value : String) : Node := .atom { value, quoted := false, location := .nowhere }

/-- Two sibling blocks in a third: the first has a definition of `x`, the second requires one, and
    when both are closed the outer block gets one. -/
def siblingCalls : List (Action ReferenceKind String Nat) :=
  [.push [.any], .push [.any], .define (siteOf "first") "x" ⟨"thing"⟩ "first", .pop, .push [.any],
    .resolve (siteOf "#x") "x" ⟨"thing"⟩ 0, .pop,
    .define (siteOf "last") "x" ⟨"thing"⟩ "last", .pop]

/-- What the second of the sibling blocks requires. -/
def siblingRequirement : Requirement ReferenceKind Nat :=
  { path := [4, 0], id := "x", kind := ⟨"thing"⟩, origin := siteOf "#x", tag := 0 }

theorem siblingCalls_tag {k : Nat} {p : Requirement ReferenceKind Nat}
    (h : Asks siblingCalls k p) : k = 5 := by
  have hk : k < 9 := (List.getElem?_eq_some_iff.mp h.1).1
  have hcall := h.1
  interval_cases k <;> simp [siblingCalls] at hcall ⊢

/-- The definition in the first of the sibling blocks is out of sight. -/
theorem siblingCalls_unfit {l : Nat} (hl : l < 7) (e : Definition ReferenceKind String) :
    ¬Fits siblingCalls siblingRequirement l e := by
  rintro ⟨⟨hcall, -, htaker⟩, -, hpath, -⟩
  have hl2 : l = 2 := by interval_cases l <;> simp [siblingCalls] at hcall ⊢
  subst hl2
  have hkind : e.kind = ⟨"thing"⟩ := by
    have hcall := Option.some.inj hcall
    injection hcall with _ _ hkind _
    exact hkind.symm
  rw [hkind] at htaker
  have hblock : e.block = 1 := (Option.some.inj htaker).symm
  rw [hblock] at hpath
  exact absurd hpath (by decide)

/-- In the sibling blocks the requirement receives the outer definition, and not its neighbour. -/
theorem requirement_decided_once_siblings :
    Asks siblingCalls 5 siblingRequirement ∧ siblingRequirement.path ≠ [] ∧
      (∀ k p, Asks siblingCalls k p → p.tag = siblingRequirement.tag → k = 5) ∧
      DecidedOnce siblingCalls 5 siblingRequirement ∧
      received siblingCalls 0 = [(7, .ok "last")] := by
  have hasks : Asks siblingCalls 5 siblingRequirement := ⟨rfl, rfl⟩
  have hopen : siblingRequirement.path ≠ [] := by decide
  have htag : ∀ k p, Asks siblingCalls k p → p.tag = siblingRequirement.tag → k = 5 :=
    fun k p h _ => siblingCalls_tag h
  have hdecided := (requirement_decided_once hasks hopen htag).1
  let d : Definition ReferenceKind String :=
    { block := 0, id := "x", kind := ⟨"thing"⟩, value := "last", origin := siteOf "last" }
  have hfits : Fits siblingCalls siblingRequirement 7 d := ⟨⟨rfl, rfl, rfl⟩, rfl, by decide, rfl⟩
  exact ⟨hasks, hopen, htag, hdecided,
    hdecided.later (fun l hl => siblingCalls_unfit (Nat.lt_trans hl (by decide))) 7 d hfits
      fun l hl => siblingCalls_unfit hl⟩

end Resolver

end Formwork
