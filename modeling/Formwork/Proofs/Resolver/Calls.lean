import Mathlib.Data.List.Basic
import Formwork.Proofs.Resolver.Sight

namespace Formwork

/-!
# What a call does

The four calls on a resolver as data, and the nine things that a call can do.

* `Resolver.act_does` — a call does one of the nine.
* `Resolver.Does.sound` — each of them keeps the resolver sound.
* `Resolver.Does.none_pending` — what does not wait is not decided, and goes on not waiting.
-/

variable {κ ν τ : Type} [Kind κ]

namespace Resolver

/-- A call on a resolver. -/
inductive Action (κ ν τ : Type) where
  | push (kinds : List κ)
  | pop
  | define (origin : Node) (id : String) (kind : κ) (value : ν)
  | resolve (origin : Node) (id : String) (kind : κ) (tag : τ)

/-- What a call leads to: the state after it, the requirements that it decides, in order, and what
    it reports. -/
structure Effect (κ ν τ : Type) where
  after : Resolver κ ν τ
  outcomes : List (Outcome ν τ) := []
  report? : Option Report := none

/-- Makes a call. -/
def act (r : Resolver κ ν τ) : Action κ ν τ → Effect κ ν τ
  | .push kinds => { after := r.push kinds }
  | .pop => { after := r.pop.1, outcomes := r.pop.2 }
  | .define origin id kind value =>
    match r.define origin id kind value with
    | .ok (after, outcomes) => { after, outcomes }
    | .error report => { after := r, report? := some report }
  | .resolve origin id kind tag =>
    { after := (r.resolve origin id kind tag).1, outcomes := (r.resolve origin id kind tag).2 }

/-- The requirement that is made here. -/
def required (r : Resolver κ ν τ) (origin : Node) (id : String) (kind : κ) (tag : τ) :
    Requirement κ τ :=
  { path := r.path, id, kind, origin, tag }

/-! ### Waking -/

/-- What a requirement receives from a definition that meets it. -/
def delivered (d : Definition κ ν) (q : Requirement κ τ) : Outcome ν τ :=
  { tag := q.tag, result := .ok d.value }

/-- The resolver with a new definition, less the requirements that it meets. -/
def store (r : Resolver κ ν τ) (d : Definition κ ν) : Resolver κ ν τ :=
  { r.add d with waiting := r.waiting.filter fun q => ¬q.MetBy d }

/-- After a new definition exactly the requirements that it meets are decided, with its value. -/
theorem wake_add {r : Resolver κ ν τ} (h : r.Sound) {d : Definition κ ν}
    (hnew : r.definition? d.id d.block = none) :
    ((r.add d).wake d.id d.block).1 = r.store d ∧
      ((r.add d).wake d.id d.block).2.Perm
        ((r.waiting.filter fun q => q.MetBy d).map (delivered d)) := by
  -- nothing that waits was met before, so what is met now is met by the new definition
  have hmet : ∀ q ∈ r.waiting, (r.add d).met? d.id d.block q
      = if q.MetBy d then some (delivered d q) else none :=
    fun q hq => met?_add hnew (h.unmet q hq)
  constructor
  · have hkept : (r.waiting.filter fun q => ((r.add d).met? d.id d.block q).isNone)
        = r.waiting.filter fun q => ¬q.MetBy d := by
      apply List.filter_congr
      intro q hq
      rw [hmet q hq]
      by_cases hd : q.MetBy d <;> simp [hd]
    simp only [wake, store]
    rw [← hkept]
    rfl
  · -- the outcomes are sorted by block, which changes their order only
    have hperm := (List.mergeSort_perm r.waiting fun p q => p.block ≤ q.block).filterMap
      ((r.add d).met? d.id d.block)
    refine hperm.trans (List.Perm.of_eq ?_)
    rw [← List.filterMap_eq_map, List.filterMap_filter]
    apply List.filterMap_congr
    intro q hq
    rw [hmet q hq]
    by_cases hd : q.MetBy d <;> simp [hd]

/-! ### The nine cases -/

/-- What a call does: open a block, pop in vain, close the last block, close another one; refuse a
    definition or take it; find a requirement's value, fail it, or let it wait. -/
inductive Does (r : Resolver κ ν τ) : Action κ ν τ → Effect κ ν τ → Prop where
  /-- A block opens inside the others. -/
  | opens (kinds : List κ) : r.Does (.push kinds) { after := r.push kinds }
  /-- Without an open block there is nothing to close. -/
  | popsNothing (hnone : r.blocks = []) : r.Does .pop { after := r }
  /-- As the outermost block closes, everything that waits fails, and the resolver is new again. -/
  | closesLast (b : Block κ) (hlast : r.blocks = [b]) :
      r.Does .pop { after := empty, outcomes := r.waiting.map r.failure }
  /-- As any other block closes, only that block goes. -/
  | closes (b : Block κ) (blocks : List (Block κ)) (hne : blocks ≠ [])
      (hfirst : r.blocks = b :: blocks) : r.Does .pop { after := { r with blocks } }
  /-- A definition that is refused is reported, and changes nothing. -/
  | refuses (origin : Node) (id : String) (kind : κ) (value : ν) (report : Report)
      (hwhy : r.define origin id kind value = .error report) :
      r.Does (.define origin id kind value) { after := r, report? := some report }
  /-- A definition that is taken delivers to what was waiting for it. -/
  | stores (b : Block κ) (d : Definition κ ν) (outcomes : List (Outcome ν τ))
      (hblock : d.block = b.number) (htaken : r.accepting? d.kind = some b)
      (hnew : r.definition? d.id d.block = none)
      (hmet : outcomes.Perm ((r.waiting.filter fun q => q.MetBy d).map (delivered d))) :
      r.Does (.define d.origin d.id d.kind d.value) { after := r.store d, outcomes }
  /-- A requirement is met by what is in sight. -/
  | finds (origin : Node) (id : String) (kind : κ) (tag : τ) (value : ν)
      (hfound : r.lookup r.path id kind = some value) :
      r.Does (.resolve origin id kind tag)
        { after := r, outcomes := [{ tag, result := .ok value }] }
  /-- Outside every block it fails at once. -/
  | fails (origin : Node) (id : String) (kind : κ) (tag : τ) (hnone : r.blocks = []) :
      r.Does (.resolve origin id kind tag)
        { after := r, outcomes := [r.failure (r.required origin id kind tag)] }
  /-- Inside one it waits. -/
  | waits (origin : Node) (id : String) (kind : κ) (tag : τ) (hopen : r.blocks ≠ [])
      (hunmet : r.lookup r.path id kind = none) :
      r.Does (.resolve origin id kind tag)
        { after := { r with waiting := r.waiting ++ [r.required origin id kind tag] } }

/-- Closing a block: none is open, or it is the last one, or others are left. -/
theorem act_pop_does (r : Resolver κ ν τ) : r.Does .pop (r.act .pop) := by
  have hact : r.act .pop = { after := r.pop.1, outcomes := r.pop.2 } := rfl
  cases hb : r.blocks with
  | nil =>
    have hpop : r.pop = (r, []) := by unfold pop; rw [hb]
    rw [hact, hpop]
    exact .popsNothing hb
  | cons b blocks =>
    cases blocks with
    | nil =>
      have hpop : r.pop = (empty, r.waiting.map r.failure) := by unfold pop; rw [hb]
      rw [hact, hpop]
      exact .closesLast b hb
    | cons c blocks =>
      have hpop : r.pop = ({ r with blocks := c :: blocks }, []) := by unfold pop; rw [hb]
      rw [hact, hpop]
      exact .closes b (c :: blocks) (List.cons_ne_nil c blocks) hb

/-- Defining is refused, or the definition goes to the block that takes it. -/
theorem act_define_does {r : Resolver κ ν τ} (h : r.Sound) (origin : Node) (id : String) (kind : κ)
    (value : ν) :
    r.Does (.define origin id kind value) (r.act (.define origin id kind value)) := by
  cases hdef : r.define origin id kind value with
  | error report =>
    simp only [act, hdef]
    exact .refuses origin id kind value report hdef
  | ok result =>
    -- a definition is made only if a block takes it and has none of its identifier
    cases htaken : r.accepting? kind with
    | none => simp [define, htaken] at hdef
    | some b =>
      cases hnew : r.definition? id b.number with
      | some first => simp [define, htaken, hnew] at hdef
      | none =>
        let d : Definition κ ν := { block := b.number, id, kind, value, origin }
        have hresult : (r.add d).wake d.id d.block = result := by
          simp only [define, htaken, hnew] at hdef
          exact Except.ok.inj hdef
        obtain ⟨hafter, hmet⟩ := wake_add h (d := d) hnew
        rw [hresult] at hafter hmet
        simp only [act, hdef, hafter]
        exact .stores b d result.2 rfl htaken hnew hmet

/-- A requirement is met, fails when no block is open, or waits. -/
theorem act_resolve_does (r : Resolver κ ν τ) (origin : Node) (id : String) (kind : κ) (tag : τ) :
    r.Does (.resolve origin id kind tag) (r.act (.resolve origin id kind tag)) := by
  cases hfind : r.lookup r.path id kind with
  | some value =>
    simp only [act, resolve, find?, hfind]
    exact .finds origin id kind tag value hfind
  | none =>
    cases hb : r.blocks with
    | nil =>
      simp only [act, resolve, find?, hfind, hb, List.isEmpty_nil, if_true]
      exact .fails origin id kind tag hb
    | cons b blocks =>
      have hopen : r.blocks ≠ [] := by rw [hb]; exact List.cons_ne_nil b blocks
      simp only [act, resolve, find?, hfind, List.isEmpty_iff, hopen, if_false]
      exact .waits origin id kind tag hopen hfind

/-- **Every call does one of the nine.** -/
theorem act_does {r : Resolver κ ν τ} (h : r.Sound) (a : Action κ ν τ) : r.Does a (r.act a) := by
  cases a with
  | push kinds => exact .opens kinds
  | pop => exact act_pop_does r
  | define origin id kind value => exact act_define_does h origin id kind value
  | resolve origin id kind tag => exact act_resolve_does r origin id kind tag

/-! ### Every call keeps the resolver sound -/

/-- A fresh resolver is sound. -/
theorem Sound.of_empty : (empty : Resolver κ ν τ).Sound where
  innermostFirst := List.Pairwise.nil
  numbered := by simp [path, empty]
  single := List.Pairwise.nil
  unmet := by simp [empty]

/-- A block that is opened has a number that none has had. -/
theorem Sound.push {r : Resolver κ ν τ} (h : r.Sound) (kinds : List κ) : (r.push kinds).Sound where
  innermostFirst := List.pairwise_cons.mpr ⟨h.numbered, h.innermostFirst⟩
  numbered := by
    intro n hn
    obtain rfl | hn := List.mem_cons.mp hn
    · exact Nat.lt_succ_self _
    · exact Nat.lt_succ_of_lt (h.numbered n hn)
  single := h.single
  unmet := h.unmet

/-- Closing a block but the last one leaves the others as they are. -/
theorem Sound.tail {r : Resolver κ ν τ} (h : r.Sound) {b : Block κ} {blocks : List (Block κ)}
    (hfirst : r.blocks = b :: blocks) : ({ r with blocks } : Resolver κ ν τ).Sound := by
  have hpath : r.path = b.number :: blocks.map Block.number := by rw [path, hfirst, List.map_cons]
  have hpairs := h.innermostFirst
  have hnumbers := h.numbered
  rw [hpath] at hpairs hnumbers
  exact
    { innermostFirst := (List.pairwise_cons.mp hpairs).2
      numbered := fun n hn => hnumbers n (List.mem_cons_of_mem _ hn)
      single := h.single
      unmet := h.unmet }

/-- A definition that is the first of its identifier in its block leaves waiting what it does not
    meet. -/
theorem Sound.store {r : Resolver κ ν τ} (h : r.Sound) {d : Definition κ ν}
    (hnew : r.definition? d.id d.block = none) : (r.store d).Sound where
  innermostFirst := h.innermostFirst
  numbered := h.numbered
  single := by
    refine List.pairwise_append.mpr ⟨h.single, List.pairwise_singleton _ _, ?_⟩
    intro e he d' hd' hsame
    obtain rfl := List.mem_singleton.mp hd'
    have hno := List.find?_eq_none.mp hnew e he
    simp [hsame] at hno
  unmet := by
    intro q hq
    obtain ⟨hwaiting, hunmet⟩ := List.mem_filter.mp hq
    have hunmet : ¬q.MetBy d := of_decide_eq_true hunmet
    have hlookup := lookup_add hnew (h.unmet q hwaiting)
    exact hlookup.trans (if_neg hunmet)

/-- Whatever a call does, the resolver is sound after it. -/
theorem Does.sound {r : Resolver κ ν τ} {a : Action κ ν τ} {e : Effect κ ν τ} (hdoes : r.Does a e)
    (h : r.Sound) : e.after.Sound := by
  cases hdoes with
  | popsNothing | refuses | finds | fails => exact h
  | opens kinds => exact h.push kinds
  | closesLast => exact .of_empty
  | closes b blocks _ hfirst => exact h.tail hfirst
  | stores b d outcomes _ _ hnew _ => exact h.store hnew
  | waits origin id kind tag _ hunmet =>
    refine { h with unmet := ?_ }
    intro q hq
    obtain hq | hq := List.mem_append.mp hq
    · exact h.unmet q hq
    · obtain rfl := List.mem_singleton.mp hq
      exact hunmet

/-! ### What waits under a tag -/

section Tags

variable [DecidableEq τ]

/-- The requirements that wait under a tag. -/
def pending (r : Resolver κ ν τ) (tag : τ) : List (Requirement κ τ) :=
  r.waiting.filter fun q => q.tag = tag

/-- Of some outcomes those under a tag. -/
def under (tag : τ) (outcomes : List (Outcome ν τ)) : List (Outcome ν τ) :=
  outcomes.filter fun o => o.tag = tag

/-- Taking a definition in decides, under each tag, what waits there and is met. -/
theorem under_delivered {r : Resolver κ ν τ} {d : Definition κ ν} {outcomes : List (Outcome ν τ)}
    (hmet : outcomes.Perm ((r.waiting.filter fun q => q.MetBy d).map (delivered d))) (tag : τ) :
    (under tag outcomes).Perm (((r.pending tag).filter fun q => q.MetBy d).map (delivered d)) := by
  refine (hmet.filter _).trans (List.Perm.of_eq ?_)
  rw [List.filter_map, pending, List.filter_filter, List.filter_filter]
  congr 2
  funext q
  exact Bool.and_comm _ _

/-- Under each tag a definition leaves waiting what it does not meet. -/
theorem pending_store (r : Resolver κ ν τ) (d : Definition κ ν) (tag : τ) :
    (r.store d).pending tag = (r.pending tag).filter fun q => ¬q.MetBy d := by
  unfold pending store
  rw [List.filter_filter, List.filter_filter]
  congr 1
  funext q
  exact Bool.and_comm _ _

/-- Closing the last block decides, under each tag, what waits there. -/
theorem under_failures (r : Resolver κ ν τ) (tag : τ) :
    under tag (r.waiting.map r.failure) = (r.pending tag).map r.failure :=
  List.filter_map

/-- Under a tag that nothing waits with, a call decides nothing and leaves nothing waiting, unless
    it makes a requirement with that tag. -/
theorem Does.none_pending {r : Resolver κ ν τ} {a : Action κ ν τ} {e : Effect κ ν τ}
    (hdoes : r.Does a e) {tag : τ} (hnone : r.pending tag = [])
    (hother : ∀ origin id kind, a ≠ .resolve origin id kind tag) :
    e.after.pending tag = [] ∧ under tag e.outcomes = [] := by
  -- an outcome is of a requirement that was waiting, or of the one that is made
  cases hdoes with
  | opens | popsNothing | closes | refuses => exact ⟨hnone, rfl⟩
  | closesLast =>
    refine ⟨rfl, ?_⟩
    rw [under_failures, hnone, List.map_nil]
  | stores b d outcomes _ _ _ hmet =>
    have hunder := under_delivered hmet tag
    rw [hnone] at hunder
    refine ⟨?_, List.perm_nil.mp hunder⟩
    rw [pending_store, hnone, List.filter_nil]
  | finds origin id kind other =>
    have hne : other ≠ tag := fun heq => hother origin id kind (by rw [heq])
    exact ⟨hnone, List.filter_eq_nil_iff.mpr (by simpa using hne)⟩
  | fails origin id kind other =>
    have hne : other ≠ tag := fun heq => hother origin id kind (by rw [heq])
    exact ⟨hnone, List.filter_eq_nil_iff.mpr (by simpa [failure, required] using hne)⟩
  | waits origin id kind other =>
    have hne : other ≠ tag := fun heq => hother origin id kind (by rw [heq])
    refine ⟨?_, rfl⟩
    show (r.waiting ++ [r.required origin id kind other]).filter _ = []
    rw [List.filter_append]
    exact List.append_eq_nil_iff.mpr
      ⟨hnone, List.filter_eq_nil_iff.mpr (by simpa [required] using hne)⟩

end Tags

end Resolver

end Formwork
