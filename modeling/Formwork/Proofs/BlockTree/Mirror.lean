import Formwork.Proofs.BlockTree.Contents
import Formwork.Proofs.Resolver.History

namespace Formwork

/-!
# The tree does what the resolver does

The tree of blocks and the resolver, side by side: after the same calls they find, decide and report
the same, in the same order, whatever order the maps of the tree list things in.

* `BlockTree.Keeps` — how the two stand to each other.
* `BlockTree.Keeps.define`, `BlockTree.Keeps.pop` — each call keeps it, and does the same.
* `BlockTree.run_keeps` — so it holds after all calls.
-/

variable {κ ν τ : Type}

/-- A definition, as its block keeps it. -/
def Definition.entry (d : Definition κ ν) : BlockTree.Entry κ ν :=
  { kind := d.kind, value := d.value, origin := d.origin }

namespace BlockTree

/-- A requirement that its block keeps, with the way up from there. -/
def Demand.requirement (d : Demand κ τ) (path : List Nat) : Requirement κ τ :=
  { path, id := d.id, kind := d.kind, origin := d.origin, tag := d.tag }

/-- A tree has what a resolver has. `ws` are the requirements that wait, each with its block, in the
    order of their numbers; the tree has them by block and identifier. -/
structure Keeps (t : BlockTree κ ν τ) (r : Resolver κ ν τ) (ws : List (Nat × Demand κ τ)) :
    Prop where
  planted : t.Planted
  blocks : r.blocks = t.stack.map fun i => { number := i, kinds := t.kindsOf i }
  next : r.next = t.blocks.size
  definitions : ∀ id i, t.definition? id i = (r.definition? id i).map Definition.entry
  waiting : r.waiting = ws.map fun w => w.2.requirement (t.chain w.1)
  numbered : ws.Pairwise fun w w' => w.2.sequence < w'.2.sequence
  bounded : ∀ w ∈ ws, w.1 < t.blocks.size ∧ w.2.sequence < t.sequence
  filed : ∀ i id, t.waitingFor i id =
    (ws.filter fun w => w.1 = i ∧ w.2.id = id).map Prod.snd

/-- A tree with no block has what a fresh resolver has, whatever it has counted. -/
theorem keeps_empty (n : Nat) :
    ({ sequence := n } : BlockTree κ ν τ).Keeps Resolver.empty [] where
  planted := (empty.sameShape_count n).planted .of_empty
  blocks := rfl
  next := rfl
  definitions := fun _ _ => rfl
  waiting := rfl
  numbered := .nil
  bounded := by simp
  filed := fun _ _ => rfl

variable {t t' : BlockTree κ ν τ} {r : Resolver κ ν τ} {ws : List (Nat × Demand κ τ)}

/-! ### What is found -/

/-- The open blocks are the same. -/
theorem Keeps.path (h : t.Keeps r ws) : r.path = t.stack := by
  rw [Resolver.path, h.blocks, List.map_map]
  exact List.map_id' _

/-- As many blocks are open. -/
theorem Keeps.depth (h : t.Keeps r ws) : t.depth = r.depth := by
  rw [BlockTree.depth, Resolver.depth, h.blocks, List.length_map]

/-- Along a path the same definitions are visible. -/
theorem Keeps.visible (h : t.Keeps r ws) (path : List Nat) (id : String) :
    path.filterMap (t.definition? id) = (r.visible path id).map Definition.entry := by
  rw [Resolver.visible, List.map_filterMap]
  congr 1
  funext i
  exact h.definitions id i

/-- The definition that a failure mentions is the same: the innermost one of the identifier, of
    whatever kind. -/
theorem Keeps.nearMiss (h : t.Keeps r ws) (i : Nat) (id : String) :
    t.nearMiss i id = (r.visible (t.chain i) id).head?.map Definition.kind := by
  rw [BlockTree.nearMiss, ← List.head?_filterMap, h.visible, List.head?_map, Option.map_map]
  rfl

section Kinds

variable [Kind κ]

/-- What a requirement in a block finds is what the resolver finds along the way up from there. -/
theorem Keeps.lookup (h : t.Keeps r ws) (i : Nat) (id : String) (kind : κ) :
    t.lookup i id kind = r.lookup (t.chain i) id kind := by
  rw [BlockTree.lookup, Resolver.lookup, h.visible, List.find?_map, Option.map_map]
  rfl

/-- An identifier has the same value here. -/
theorem Keeps.find? (h : t.Keeps r ws) (id : String) (kind : κ) :
    t.find? id kind = r.find? id kind := by
  have hup := h.planted.stack
  rw [BlockTree.find?, Resolver.find?, h.path]
  cases htop : t.stack.head? with
  | none => rw [List.head?_eq_none_iff.mp htop]; rfl
  | some top =>
    rw [BlockTree.here, htop, Option.elim_some] at hup
    rw [hup, Option.bind_some, h.lookup]

/-- The same block takes definitions of a kind. -/
theorem Keeps.accepting? (h : t.Keeps r ws) (kind : κ) :
    r.accepting? kind =
      (t.accepting? kind).map fun i => { number := i, kinds := t.kindsOf i } := by
  rw [Resolver.accepting?, h.blocks, List.find?_map, BlockTree.accepting?, ← h.planted.stack]
  rfl

/-- A requirement that fails fails with the same words. -/
theorem Keeps.failure (h : t.Keeps r ws) (i : Nat) (d : Demand κ τ) :
    d.failure (t.nearMiss i d.id) = r.failure (d.requirement (t.chain i)) := by
  rw [h.nearMiss, Demand.failure, Option.map_map]
  rfl

end Kinds

/-! ### Opening and closing blocks -/

/-- Something else waits, and all else stays as it is. -/
theorem Keeps.rewait (h : t.Keeps r ws) (ws' : List (Nat × Demand κ τ))
    (hshape : t.SameShape t')
    (hdefinitions : ∀ id i, t'.definition? id i = t.definition? id i)
    (hnumbered : ws'.Pairwise fun w w' => w.2.sequence < w'.2.sequence)
    (hbounded : ∀ w ∈ ws', w.1 < t.blocks.size ∧ w.2.sequence < t'.sequence)
    (hfiled : ∀ i id, t'.waitingFor i id =
      (ws'.filter fun w => w.1 = i ∧ w.2.id = id).map Prod.snd) :
    t'.Keeps { r with waiting := ws'.map fun w => w.2.requirement (t.chain w.1) } ws' where
  planted := hshape.planted h.planted
  blocks := by
    show r.blocks = _
    rw [h.blocks, hshape.stack, funext hshape.kinds]
  next := h.next.trans hshape.size.symm
  definitions := fun id i => (hdefinitions id i).trans (h.definitions id i)
  waiting := by rw [funext hshape.chain]
  numbered := hnumbered
  bounded := by rw [hshape.size]; exact hbounded
  filed := hfiled

/-- Counting on changes nothing else. -/
theorem Keeps.count (h : t.Keeps r ws) {n : Nat} (hn : t.sequence ≤ n) :
    ({ t with sequence := n } : BlockTree κ ν τ).Keeps r ws := by
  have hkept := h.rewait ws (t.sameShape_count n) (fun _ _ => rfl) h.numbered
    (fun w hw => ⟨(h.bounded w hw).1, Nat.lt_of_lt_of_le (h.bounded w hw).2 hn⟩) h.filed
  rwa [← h.waiting] at hkept

/-- Opening a block counts nothing. -/
theorem sequence_push (t : BlockTree κ ν τ) (kinds : List κ) :
    (t.push kinds).sequence = t.sequence := by
  unfold BlockTree.push
  cases t.stack.head? <;> rfl

/-- Opening a block, seen from both sides: it gets the same number, and what waits stays where it
    is, as its way up does not lead through the new block. -/
theorem Keeps.push (h : t.Keeps r ws) (kinds : List κ) :
    (t.push kinds).Keeps (r.push kinds) ws where
  planted := h.planted.push kinds
  blocks := by
    have hold : (t.stack.map fun i => { number := i, kinds := (t.push kinds).kindsOf i })
        = r.blocks := by
      rw [h.blocks]
      refine List.map_congr_left fun i hi => ?_
      rw [kindsOf_push, if_neg (Nat.ne_of_lt (h.planted.inside i hi))]
    rw [stack_push, List.map_cons, hold, kindsOf_push, if_pos rfl, ← h.next]
    rfl
  next := by rw [size_push, ← h.next]; rfl
  definitions := fun id i => (t.definition?_push kinds id i).trans (h.definitions id i)
  waiting := by
    show r.waiting = _
    rw [h.waiting]
    refine List.map_congr_left fun w hw => ?_
    -- a block with something waiting in it is not the new one
    rw [chain_push_of_lt (h.bounded w hw).1]
  numbered := h.numbered
  bounded := fun w hw => by
    rw [size_push, sequence_push]
    exact ⟨Nat.lt_succ_of_lt (h.bounded w hw).1, (h.bounded w hw).2⟩
  filed := fun i id => (t.waitingFor_push kinds i id).trans (h.filed i id)

/-- What waits in a block. -/
theorem Keeps.outstanding_perm (h : t.Keeps r ws) (i : Nat) :
    (t.outstanding i).Perm ((ws.filter fun w => w.1 = i).map Prod.snd) := by
  refine t.outstanding_perm fun id => ?_
  rw [h.filed, List.filter_map, List.filter_filter]
  congr 1
  refine List.filter_congr fun w _ => ?_
  by_cases hi : w.1 = i <;> by_cases hid : w.2.id = id <;> simp [hi, hid]

/-- The block that is open last has everything that waits. -/
theorem Keeps.unmet_perm (h : t.Keeps r ws) {top : Nat} (hone : t.stack = [top]) :
    (t.unmet top).Perm (ws.map fun w => (w.2, t.nearMiss w.1 w.2.id)) := by
  have hlt : top < t.blocks.size := h.planted.inside top (hone ▸ List.mem_cons_self)
  -- the outermost block is the first one, and so all blocks are in it
  have hroot : top = 0 := by
    have hup := h.planted.stack
    rw [here, hone, List.head?_cons, Option.elim_some] at hup
    have hzero := h.planted.rooted top hlt
    rw [← hup] at hzero
    exact (List.mem_singleton.mp hzero).symm
  have hall : t.subtree top = List.range t.blocks.size := by
    rw [h.planted.subtree_eq hlt, List.filter_eq_self]
    intro i hi
    rw [hroot]
    exact decide_eq_true (h.planted.rooted i (List.mem_range.mp hi))
  have hblock : ∀ i ∈ List.range t.blocks.size,
      ((t.outstanding i).map fun d => (d, t.nearMiss i d.id)).Perm
        ((ws.filter fun w => w.1 = i).map fun w => (w.2, t.nearMiss w.1 w.2.id)) := by
    intro i _
    refine ((h.outstanding_perm i).map _).trans (List.Perm.of_eq ?_)
    rw [List.map_map]
    refine List.map_congr_left fun w hw => ?_
    have hw : w.1 = i := of_decide_eq_true (List.mem_filter.mp hw).2
    rw [Function.comp_apply, hw]
  rw [unmet, hall]
  refine (List.Perm.flatMap_left _ hblock).trans ?_
  rw [← List.map_flatMap]
  exact (fibers_perm Prod.fst List.nodup_range fun w hw =>
    List.mem_range.mpr (h.bounded w hw).1).map _

/-- No two requirements have one number. -/
theorem Keeps.eq_of_sequence (h : t.Keeps r ws) {w w' : Nat × Demand κ τ} (hw : w ∈ ws)
    (hw' : w' ∈ ws) (hsame : w.2.sequence = w'.2.sequence) : w = w' := by
  have : Std.Symm fun w w' : Nat × Demand κ τ => w.2.sequence ≠ w'.2.sequence :=
    ⟨fun _ _ hne => hne.symm⟩
  have hdistinct := h.numbered.imp (fun hlt => Nat.ne_of_lt hlt)
  by_contra hne
  exact hdistinct.forall hw hw' hne hsame

section Kinds

variable [Kind κ]

/-- **Closing the outermost block** fails what waits in the order in which it was required, in
    whatever order it was gathered, and leaves only the count. -/
theorem Keeps.popLast (h : t.Keeps r ws) (g : Gathering (Demand κ τ × Option κ)) {top : Nat}
    (hone : t.stack = [top]) :
    t.pop g = ({ t with blocks := #[], stack := [] }, r.waiting.map r.failure) := by
  have hpop : t.pop g = ({ t with blocks := #[], stack := [] },
      ((g.order (t.unmet top)).mergeSort fun p p' => p.1.sequence ≤ p'.1.sequence).map
        fun p => p.1.failure p.2) := by
    simp only [BlockTree.pop, hone]
  have hsorted : ((g.order (t.unmet top)).mergeSort fun p p' => p.1.sequence ≤ p'.1.sequence)
      = ws.map fun w => (w.2, t.nearMiss w.1 w.2.id) := by
    have hperm := (List.mergeSort_perm (g.order (t.unmet top)) fun p p' =>
      p.1.sequence ≤ p'.1.sequence).trans ((g.perm _).trans (h.unmet_perm hone))
    -- the numbers are distinct, so one order only is sorted by them
    have hgrow := pairwise_mergeSort (fun p : Demand κ τ × Option κ => p.1.sequence)
      (g.order (t.unmet top))
    have hgrow' : (ws.map fun w => (w.2, t.nearMiss w.1 w.2.id)).Pairwise fun p p' =>
        p.1.sequence ≤ p'.1.sequence :=
      List.pairwise_map.mpr (h.numbered.imp Nat.le_of_lt)
    refine hperm.eq_of_pairwise (fun p p' hp hp' hle hle' => ?_) hgrow hgrow'
    obtain ⟨w, hw, rfl⟩ := List.mem_map.mp (hperm.mem_iff.mp hp)
    obtain ⟨w', hw', rfl⟩ := List.mem_map.mp hp'
    rw [h.eq_of_sequence hw hw' (Nat.le_antisymm hle hle')]
  rw [hpop, hsorted, h.waiting, List.map_map, List.map_map]
  congr 1
  refine List.map_congr_left fun w _ => ?_
  exact h.failure w.1 w.2

omit [Kind κ] in
/-- Closing another block leaves what waits in it. -/
theorem Keeps.close (h : t.Keeps r ws) {top : Nat} {rest : List Nat}
    (hstack : t.stack = top :: rest) (hrest : rest ≠ []) :
    ({ t with stack := rest } : BlockTree κ ν τ).Keeps { r with blocks := r.blocks.tail } ws where
  planted := h.planted.closed hstack hrest
  blocks := by rw [h.blocks, hstack, List.map_cons, List.tail_cons]; rfl
  next := h.next
  definitions := h.definitions
  waiting := by
    show r.waiting = _
    have hchain : ∀ i, ({ t with stack := rest } : BlockTree κ ν τ).chain i = t.chain i :=
      fun i => chain_congr fun _ _ => rfl
    rw [h.waiting, funext hchain]
  numbered := h.numbered
  bounded := h.bounded
  filed := h.filed

/-- **Closing a block** comes out the same: without one open nothing happens, the outermost one
    makes everything fail that waits, and any other is just left. -/
theorem Keeps.pop (h : t.Keeps r ws) (g : Gathering (Demand κ τ × Option κ)) :
    ∃ ws', (t.pop g).1.Keeps r.pop.1 ws' ∧ (t.pop g).2 = r.pop.2 := by
  have hblocks := h.blocks
  -- with no block nothing happens, the last block fails what waits, and any other hands it on
  match hstack : t.stack with
  | [] =>
    rw [hstack, List.map_nil] at hblocks
    have ht : t.pop g = (t, []) := by simp only [BlockTree.pop, hstack]
    have hr : r.pop = (r, []) := by simp only [Resolver.pop, hblocks]
    rw [ht, hr]
    exact ⟨ws, h, rfl⟩
  | [top] =>
    rw [hstack, List.map_singleton] at hblocks
    have hr : r.pop = (Resolver.empty, r.waiting.map r.failure) := by
      simp only [Resolver.pop, hblocks]
    rw [h.popLast g hstack, hr]
    exact ⟨[], keeps_empty t.sequence, rfl⟩
  | top :: next :: rest =>
    have hclose := h.close hstack (List.cons_ne_nil next rest)
    rw [hstack, List.map_cons, List.map_cons] at hblocks
    have ht : t.pop g = ({ t with stack := next :: rest }, []) := by
      simp only [BlockTree.pop, hstack]
    have hr : r.pop = ({ r with blocks := r.blocks.tail }, []) := by
      simp only [Resolver.pop, hblocks, List.tail_cons]
    rw [ht, hr]
    exact ⟨ws, hclose, rfl⟩

/-! ### Requirements -/

omit [Kind κ] in
/-- A requirement that is let wait is the last one of all. -/
theorem Keeps.await (h : t.Keeps r ws) {i : Nat} (hi : i < t.blocks.size) (d : Demand κ τ)
    (hd : ∀ w ∈ ws, w.2.sequence < d.sequence) (hcount : d.sequence < t.sequence) :
    (t.await i d).Keeps { r with waiting := r.waiting ++ [d.requirement (t.chain i)] }
      (ws ++ [(i, d)]) := by
  have hview := t.await_sameView i d
  have hkept := h.rewait (ws ++ [(i, d)]) hview.toSameShape hview.definitions ?_ ?_ ?_
  · rwa [List.map_append, ← h.waiting] at hkept
  · refine List.pairwise_append.mpr ⟨h.numbered, List.pairwise_singleton _ _, fun w hw w' hw' => ?_⟩
    rw [List.mem_singleton.mp hw']
    exact hd w hw
  · intro w hw
    rw [hview.sequence]
    rcases List.mem_append.mp hw with hw | hw
    · exact h.bounded w hw
    · rw [List.mem_singleton.mp hw]
      exact ⟨hi, hcount⟩
  · intro j other
    rw [t.waitingFor_await hi, List.filter_append, List.map_append, ← h.filed]
    -- only the list of this identifier in this block gets longer
    by_cases hsame : i = j ∧ d.id = other
    · obtain ⟨rfl, rfl⟩ := hsame
      simp
    · have hother : ¬(j = i ∧ other = d.id) := fun heq => hsame ⟨heq.1.symm, heq.2.symm⟩
      rw [if_neg hother, List.filter_cons, if_neg (by simpa using hsame)]
      simp

/-- **A requirement** comes out the same: it is met, it fails, or it waits, with the next number,
    behind all others. -/
theorem Keeps.resolve (h : t.Keeps r ws) (origin : Node) (id : String) (kind : κ) (tag : τ) :
    ∃ ws', (t.resolve origin id kind tag).1.Keeps (r.resolve origin id kind tag).1 ws' ∧
      (t.resolve origin id kind tag).2 = (r.resolve origin id kind tag).2 := by
  let d : Demand κ τ := { sequence := t.sequence, id, kind, origin, tag }
  -- the tree counts the requirement in any case, the resolver does not count
  have hcounted := h.count (Nat.le_succ t.sequence)
  have hfind := hcounted.find? id kind
  have hpath := h.path
  cases htop : t.stack.head? with
  | none =>
    have hnil := List.head?_eq_none_iff.mp htop
    have hblocks : r.blocks = [] := by rw [h.blocks, hnil, List.map_nil]
    have hnone : r.find? id kind = none := by rw [Resolver.find?, hpath, hnil]; rfl
    have ht : t.resolve origin id kind tag
        = ({ t with sequence := t.sequence + 1 }, [d.failure none]) := by
      simp only [BlockTree.resolve, htop]
      rfl
    have hr : r.resolve origin id kind tag = (r, [d.failure none]) := by
      simp only [Resolver.resolve, hnone, hblocks, List.isEmpty_nil, if_true, hpath, hnil]
      rfl
    rw [ht, hr]
    exact ⟨ws, hcounted, rfl⟩
  | some top =>
    have hlt := h.planted.inside top (List.mem_of_head? htop)
    have hup := hcounted.planted.stack
    have hopen : r.blocks.isEmpty = false := by
      rw [h.blocks, List.isEmpty_eq_false_iff, ne_eq, List.map_eq_nil_iff]
      exact fun hnil => by rw [hnil] at htop; cases htop
    simp only [here, htop, Option.elim_some] at hup
    simp only [BlockTree.find?, htop, Option.bind_some] at hfind
    -- both look along the same way up, so one answer settles it for both
    cases hfound : r.find? id kind with
    | some value =>
      have ht : t.resolve origin id kind tag
          = ({ t with sequence := t.sequence + 1 }, [{ tag, result := .ok value }]) := by
        simp only [BlockTree.resolve, htop, hfind, hfound]
      have hr : r.resolve origin id kind tag = (r, [{ tag, result := .ok value }]) := by
        simp only [Resolver.resolve, hfound]
      rw [ht, hr]
      exact ⟨ws, hcounted, rfl⟩
    | none =>
      have ht : t.resolve origin id kind tag
          = (({ t with sequence := t.sequence + 1 } : BlockTree κ ν τ).await top d, []) := by
        simp only [BlockTree.resolve, htop, hfind, hfound]
        rfl
      have hr : r.resolve origin id kind tag = ({ r with waiting := r.waiting ++
          [d.requirement (({ t with sequence := t.sequence + 1 } : BlockTree κ ν τ).chain top)] },
            []) := by
        rw [← hup]
        simp only [Resolver.resolve, hfound, hopen, hpath]
        rfl
      rw [ht, hr]
      exact ⟨_, hcounted.await hlt d (fun w hw => (h.bounded w hw).2) (Nat.lt_succ_self _), rfl⟩

/-! ### Definitions -/

omit [Kind κ] in
/-- A definition that is entered is made in the resolver too. -/
theorem Keeps.enter (h : t.Keeps r ws) {d : Definition κ ν} (hi : d.block < t.blocks.size)
    (hnew : r.definition? d.id d.block = none) :
    (t.enter d.block d.id d.entry).Keeps (r.add d) ws := by
  have hshape := t.enter_sameShape d.block d.id d.entry
  have hchain := funext hshape.chain
  refine
    { planted := hshape.planted h.planted
      blocks := by rw [hshape.stack, funext hshape.kinds]; exact h.blocks
      next := h.next.trans hshape.size.symm
      definitions := fun id i => ?_
      waiting := by rw [hchain]; exact h.waiting
      numbered := h.numbered
      bounded := by rw [hshape.size]; exact h.bounded
      filed := fun i id => (t.waitingFor_enter _ _ _ i id).trans (h.filed i id) }
  rw [t.definition?_enter hi, Resolver.definition?_add, h.definitions]
  -- the entry is the definition of its identifier in its block, and changes no other
  by_cases hsame : d.block = i ∧ d.id = id
  · obtain ⟨rfl, rfl⟩ := hsame
    simp [hnew]
  · have hother : ¬(i = d.block ∧ id = d.id) := fun heq => hsame ⟨heq.1.symm, heq.2.symm⟩
    rw [if_neg hother, if_neg hsame, Option.or_none]

/-- What a requirement becomes when its identifier has been defined. -/
theorem Keeps.met? (h : t.Keeps r ws) (id : String) (i : Nat) (j : Nat) (d : Demand κ τ) :
    r.met? id i (d.requirement (t.chain j))
      = if d.id = id ∧ i ∈ t.chain j then t.met? id j d else none := by
  have hlookup := h.lookup j id d.kind
  unfold Resolver.met? BlockTree.met? Demand.requirement
  by_cases hid : d.id = id
  · by_cases hup : i ∈ t.chain j <;> simp [hid, hup, hlookup]
  · simp [hid]

omit [Kind κ] in
/-- A requirement is for the block whose way up it looks along. -/
theorem block_requirement (t : BlockTree κ ν τ) (i : Nat) (d : Demand κ τ) :
    (d.requirement (t.chain i)).block = i := by
  rw [Requirement.block, Demand.requirement, chain_eq]
  rfl

/-- The resolver wakes what waits block by block. -/
theorem Keeps.wake_outcomes (h : t.Keeps r ws) (id : String) (i : Nat) :
    (r.wake id i).2 = (List.range t.blocks.size).flatMap fun j =>
      (ws.filter fun w => w.1 = j).filterMap fun w =>
        r.met? id i (w.2.requirement (t.chain w.1)) := by
  have hsorted : (r.waiting.mergeSort fun p q => p.block ≤ q.block)
      = (ws.mergeSort fun w w' => w.1 ≤ w'.1).map fun w => w.2.requirement (t.chain w.1) := by
    rw [h.waiting]
    refine (List.map_mergeSort fun w _ w' _ => ?_).symm
    rw [block_requirement, block_requirement]
  show (r.waiting.mergeSort fun p q => p.block ≤ q.block).filterMap (r.met? id i) = _
  rw [hsorted, mergeSort_eq_fibers Prod.fst fun w hw => (h.bounded w hw).1, List.filterMap_map,
    List.filterMap_flatMap]
  rfl

/-- **Going through a block and those in it** decides what the resolver decides, in the same
    order. -/
theorem Keeps.retry (h : t.Keeps r ws) {i : Nat} (hi : i < t.blocks.size) (id : String) :
    ∃ ws', (t.retry id (t.subtree i)).1.Keeps (r.wake id i).1 ws' ∧
      (t.retry id (t.subtree i)).2 = (r.wake id i).2 := by
  let requirement (w : Nat × Demand κ τ) : Requirement κ τ := w.2.requirement (t.chain w.1)
  let still := ws.filter fun w => (r.met? id i (requirement w)).isNone
  have hview := t.retry_sameView id (t.subtree i)
  have hsubtree := h.planted.subtree_eq hi
  have hnodup : (t.subtree i).Nodup := hsubtree ▸ List.nodup_range.filter _
  refine ⟨still, ?_, ?_⟩
  · have hkept := h.rewait still hview.toSameShape hview.definitions (h.numbered.filter _) ?_ ?_
    · have hwaiting : still.map requirement
          = r.waiting.filter fun q => (r.met? id i q).isNone := by
        rw [h.waiting, List.filter_map]
        rfl
      have hwake : (r.wake id i).1
          = { r with waiting := r.waiting.filter fun q => (r.met? id i q).isNone } := rfl
      rw [hwake, ← hwaiting]
      exact hkept
    · intro w hw
      rw [hview.sequence]
      exact h.bounded w (List.mem_of_mem_filter hw)
    · intro j other
      rw [t.waitingFor_retry id hnodup, h.filed, h.filed, List.filter_map, List.filter_filter,
        List.filter_filter]
      by_cases hin : j ∈ t.subtree i ∧ other = id
      · -- what waits for the identifier in a block below stays when it is not met
        obtain ⟨hj, rfl⟩ := hin
        rw [hsubtree, List.mem_filter, decide_eq_true_iff] at hj
        rw [if_pos ⟨by rw [hsubtree, List.mem_filter, decide_eq_true_iff]; exact hj, rfl⟩]
        congr 1
        refine List.filter_congr fun w _ => ?_
        by_cases hw : w.1 = j ∧ w.2.id = other
        · obtain ⟨rfl, hid⟩ := hw
          simp [requirement, h.met?, hid, hj.2]
        · simp [hw]
      · rw [if_neg hin]
        congr 1
        refine List.filter_congr fun w hw => ?_
        by_cases hsame : w.1 = j ∧ w.2.id = other
        · obtain ⟨rfl, rfl⟩ := hsame
          have hout : ¬(w.2.id = id ∧ i ∈ t.chain w.1) := by
            rintro ⟨hid, hup⟩
            refine hin ⟨?_, hid⟩
            rw [hsubtree, List.mem_filter, List.mem_range, decide_eq_true_iff]
            exact ⟨(h.bounded w hw).1, hup⟩
          simp [requirement, h.met?, hout]
        · simp [hsame]
  · rw [h.wake_outcomes, t.outcomes_retry id hnodup, hsubtree, flatMap_filter]
    refine List.flatMap_congr fun j _ => ?_
    rw [h.filed, List.filterMap_map, List.filterMap_filter, List.filterMap_filter]
    by_cases hup : i ∈ t.chain j
    · rw [if_pos (decide_eq_true hup)]
      refine List.filterMap_congr fun w _ => ?_
      by_cases hw : w.1 = j
      · subst hw
        by_cases hid : w.2.id = id <;> simp [h.met?, hid, hup]
      · simp [hw]
    · rw [if_neg (by simpa using hup), eq_comm, List.filterMap_eq_nil_iff]
      intro w _
      by_cases hw : w.1 = j
      · subst hw
        simp [h.met?, hup]
      · simp [hw]

/-- **Defining** does the same to both. -/
theorem Keeps.define (h : t.Keeps r ws) (origin : Node) (id : String) (kind : κ) (value : ν) :
    (∃ report, t.define origin id kind value = .error report ∧
        r.define origin id kind value = .error report) ∨
      ∃ t' r' ws' outcomes, t.define origin id kind value = .ok (t', outcomes) ∧
        r.define origin id kind value = .ok (r', outcomes) ∧ t'.Keeps r' ws' := by
  have haccepting := h.accepting? kind
  cases htaken : t.accepting? kind with
  | none =>
    rw [htaken, Option.map_none] at haccepting
    refine .inl ⟨.atNode (.noAcceptingScope id (Kind.text kind)) origin, ?_, ?_⟩
    · simp only [BlockTree.define, htaken]
    · simp only [Resolver.define, haccepting]
  | some i =>
    rw [htaken, Option.map_some] at haccepting
    have hfound := h.definitions id i
    have hi : i < t.blocks.size := by
      have hopen := List.mem_of_find?_eq_some htaken
      rw [← h.planted.stack] at hopen
      exact h.planted.inside i hopen
    -- the block that takes the definition may have one of this identifier
    cases hfirst : r.definition? id i with
    | some first =>
      rw [hfirst, Option.map_some] at hfound
      refine .inl ⟨{ problem := .duplicateDefinition id, nodes := [origin, first.origin] }, ?_, ?_⟩
      · simp only [BlockTree.define, htaken, hfound]
        rfl
      · simp only [Resolver.define, haccepting, hfirst]
    | none =>
      rw [hfirst, Option.map_none] at hfound
      let d : Definition κ ν := { block := i, id, kind, value, origin }
      obtain ⟨ws', hkept, houtcomes⟩ := (h.enter (d := d) hi hfirst).retry
        (by rw [(t.enter_sameShape i id d.entry).size]; exact hi) id
      refine .inr ⟨_, _, ws', ((r.add d).wake id i).2, ?_, ?_, hkept⟩
      · simp only [BlockTree.define, htaken, hfound]
        rw [← houtcomes]
        rfl
      · simp only [Resolver.define, haccepting, hfirst]
        rfl

/-! ### Histories of calls -/

omit [Kind κ] in
/-- What a call on a tree leads to: the state after it, the requirements that it decides, in order,
    and what it reports. -/
structure Effect (κ ν τ : Type) where
  after : BlockTree κ ν τ
  outcomes : List (Outcome ν τ) := []
  report? : Option Report := none

/-- Makes a call, which may gather what waits in some order. -/
def act (t : BlockTree κ ν τ) (g : Gathering (Demand κ τ × Option κ)) :
    Resolver.Action κ ν τ → Effect κ ν τ
  | .push kinds => { after := t.push kinds }
  | .pop => { after := (t.pop g).1, outcomes := (t.pop g).2 }
  | .define origin id kind value =>
    match t.define origin id kind value with
    | .ok (after, outcomes) => { after, outcomes }
    | .error report => { after := t, report? := some report }
  | .resolve origin id kind tag =>
    { after := (t.resolve origin id kind tag).1, outcomes := (t.resolve origin id kind tag).2 }

/-- **Every call** does the same to a tree and to a resolver that it has. -/
theorem Keeps.act (h : t.Keeps r ws) (g : Gathering (Demand κ τ × Option κ))
    (a : Resolver.Action κ ν τ) :
    ∃ ws', (t.act g a).after.Keeps (r.act a).after ws' ∧
      (t.act g a).outcomes = (r.act a).outcomes ∧ (t.act g a).report? = (r.act a).report? := by
  -- one lemma for each kind of call
  cases a with
  | push kinds => exact ⟨ws, h.push kinds, rfl, rfl⟩
  | pop =>
    obtain ⟨ws', hkept, houtcomes⟩ := h.pop g
    exact ⟨ws', hkept, houtcomes, rfl⟩
  | define origin id kind value =>
    rcases h.define origin id kind value with
      ⟨report, ht, hr⟩ | ⟨t', r', ws', outcomes, ht, hr, hkept⟩
    · simp only [BlockTree.act, Resolver.act, ht, hr]
      exact ⟨ws, h, trivial, trivial⟩
    · simp only [BlockTree.act, Resolver.act, ht, hr]
      exact ⟨ws', hkept, trivial, trivial⟩
  | resolve origin id kind tag =>
    obtain ⟨ws', hkept, houtcomes⟩ := h.resolve origin id kind tag
    exact ⟨ws', hkept, houtcomes, rfl⟩

variable (gs : Nat → Gathering (Demand κ τ × Option κ)) (as : List (Resolver.Action κ ν τ))

/-- The tree after some calls. Each call gathers in an order of its own. -/
def run : BlockTree κ ν τ :=
  as.zipIdx.foldl (fun t (a, k) => (t.act (gs k) a).after) empty

/-- What a call decides, in order. -/
def decidedAt (m : Nat) : List (Outcome ν τ) :=
  as[m]?.elim [] fun a => ((run gs (as.take m)).act (gs m) a).outcomes

/-- What a call reports. -/
def report? (m : Nat) : Option Report :=
  as[m]?.bind fun a => ((run gs (as.take m)).act (gs m) a).report?

/-- One call more is made where the others have led. -/
theorem run_snoc (a : Resolver.Action κ ν τ) :
    run gs (as ++ [a]) = ((run gs as).act (gs as.length) a).after := by
  simp [run, List.zipIdx_append]

/-- **After all calls** a tree has what a resolver has. -/
theorem run_keeps : ∃ ws, (run gs as).Keeps (Resolver.run as) ws := by
  induction as using List.reverseRecOn with
  | nil => exact ⟨[], keeps_empty 0⟩
  | append_singleton as a ih =>
    obtain ⟨ws, h⟩ := ih
    obtain ⟨ws', hkept, -, -⟩ := h.act (gs as.length) a
    rw [run_snoc, Resolver.run_snoc]
    exact ⟨ws', hkept⟩

/-- After some calls as many blocks are open. -/
theorem depth_run : (run gs as).depth = (Resolver.run as).depth := by
  obtain ⟨ws, h⟩ := run_keeps gs as
  exact h.depth

/-- After some calls an identifier has the same value. -/
theorem find?_run (id : String) (kind : κ) :
    (run gs as).find? id kind = (Resolver.run as).find? id kind := by
  obtain ⟨ws, h⟩ := run_keeps gs as
  exact h.find? id kind

/-- In every order of gathering, the calls on a tree decide what they decide on a resolver. -/
theorem decidedAt_eq (m : Nat) : decidedAt gs as m = Resolver.decidedAt as m := by
  obtain ⟨ws, h⟩ := run_keeps gs (as.take m)
  unfold decidedAt Resolver.decidedAt
  cases as[m]? with
  | none => rfl
  | some a =>
    obtain ⟨-, -, houtcomes, -⟩ := h.act (gs m) a
    exact houtcomes

/-- A call is refused by both for the same reason. -/
theorem report?_eq (m : Nat) : report? gs as m = Resolver.report? as m := by
  obtain ⟨ws, h⟩ := run_keeps gs (as.take m)
  unfold report? Resolver.report?
  cases as[m]? with
  | none => rfl
  | some a =>
    obtain ⟨-, -, -, hreport⟩ := h.act (gs m) a
    exact hreport

end Kinds

end BlockTree

end Formwork
