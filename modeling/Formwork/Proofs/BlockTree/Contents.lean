import Mathlib.Data.List.Perm.Basic
import Formwork.Proofs.BlockTree.Shape

namespace Formwork

/-!
# What is in the blocks

What each call makes of the definitions and of what waits, block by block and identifier by
identifier.

* `BlockTree.waitingFor_retry`, `BlockTree.outcomes_retry` — going through some blocks decides what
  can be met there, and leaves all else.
* `BlockTree.outstanding_perm` — what the map of a block lists is what waits there.
* `BlockTree.mergeSort_eq_fibers` — sorting by a number puts together, for each number, what has it.
-/

variable {κ ν τ : Type}

namespace BlockTree

/-! ### Sorting by a number -/

/-- Some things, put together by a property of theirs. -/
theorem fibers_perm {α β : Type} [DecidableEq β] (f : α → β) {ks : List β} (hks : ks.Nodup)
    {l : List α} (hl : ∀ a ∈ l, f a ∈ ks) :
    (ks.flatMap fun k => l.filter fun a => f a = k).Perm l := by
  -- by induction on the values that the property may have: those with the first value are taken
  -- out, and the rest has only the values that are left
  induction ks generalizing l with
  | nil =>
    have hnone : l = [] := List.eq_nil_iff_forall_not_mem.mpr fun a ha => by simpa using hl a ha
    rw [hnone, List.flatMap_nil]
  | cons k ks ih =>
    rw [List.nodup_cons] at hks
    have hrest : ∀ j ∈ ks, (l.filter fun a => f a = j)
        = (l.filter fun a => ¬f a = k).filter fun a => f a = j := by
      intro j hj
      rw [List.filter_filter]
      refine List.filter_congr fun a _ => ?_
      by_cases hfa : f a = j
      · have hne : j ≠ k := fun heq => hks.1 (heq ▸ hj)
        simp [hfa, hne]
      · simp [hfa]
    rw [List.flatMap_cons, List.flatMap_congr hrest]
    have hothers := ih hks.2 (l := l.filter fun a => ¬f a = k) fun a ha => by
      rw [List.mem_filter, decide_eq_true_iff] at ha
      exact (List.mem_cons.mp (hl a ha.1)).resolve_left ha.2
    refine (hothers.append_left _).trans ?_
    simpa using List.filter_append_perm (fun a => decide (f a = k)) l

/-- Leaving things out before they are replaced is replacing them by nothing. -/
theorem flatMap_filter {α β : Type} (p : α → Bool) (f : α → List β) (l : List α) :
    (l.filter p).flatMap f = l.flatMap fun a => if p a then f a else [] := by
  induction l with
  | nil => rfl
  | cons a l ih => by_cases ha : p a = true <;> simp [ha, ih]

/-- What has a smaller number comes first among things that are sorted. -/
theorem filter_lt_succ {α : Type} (f : α → Nat) (n : Nat) {l : List α}
    (hl : l.Pairwise fun a b => f a ≤ f b) :
    (l.filter fun a => f a < n + 1) = (l.filter fun a => f a < n) ++ l.filter fun a => f a = n := by
  induction l with
  | nil => rfl
  | cons a l ih =>
    rw [List.pairwise_cons] at hl
    rw [List.filter_cons, List.filter_cons, List.filter_cons, ih hl.2]
    -- where the first one goes is decided by its number; if that is `n` or more, nothing smaller
    -- follows, as the list is sorted
    rcases Nat.lt_trichotomy (f a) n with hlt | heq | hgt
    · have hne : f a ≠ n := Nat.ne_of_lt hlt
      simp [hlt, hne, Nat.lt_succ_of_lt hlt]
    · have hnone : (l.filter fun b => f b < n) = [] := by
        rw [List.filter_eq_nil_iff]
        intro b hb
        have := hl.1 b hb
        simp only [decide_eq_true_eq]
        omega
      simp [heq, hnone]
    · have hnot : ¬f a < n + 1 := by omega
      have hne : f a ≠ n := by omega
      have hge : ¬f a < n := by omega
      simp [hnot, hne, hge]

/-- Comparing by a number is transitive, as sorting asks for it. -/
theorem le_trans_by {α : Type} (f : α → Nat) (a b c : α) (hab : decide (f a ≤ f b) = true)
    (hbc : decide (f b ≤ f c) = true) : decide (f a ≤ f c) = true := by
  rw [decide_eq_true_iff] at hab hbc ⊢
  exact Nat.le_trans hab hbc

/-- Comparing by a number is total, as sorting asks for it. -/
theorem le_total_by {α : Type} (f : α → Nat) (a b : α) :
    (decide (f a ≤ f b) || decide (f b ≤ f a)) = true := by
  rw [Bool.or_eq_true, decide_eq_true_iff, decide_eq_true_iff]
  exact Nat.le_total _ _

/-- What has been sorted by a number stands in the order of the numbers. -/
theorem pairwise_mergeSort {α : Type} (f : α → Nat) (l : List α) :
    (l.mergeSort fun a b => f a ≤ f b).Pairwise fun a b => f a ≤ f b :=
  (List.pairwise_mergeSort (le_trans_by f) (le_total_by f) l).imp of_decide_eq_true

/-- Things with the same number keep their order. -/
theorem filter_mergeSort {α : Type} (f : α → Nat) (k : Nat) (l : List α) :
    ((l.mergeSort fun a b => f a ≤ f b).filter fun a => f a = k)
      = l.filter fun a => f a = k := by
  -- what has the number `k` is in order already, so it comes out of the stable sort as a sublist;
  -- it is no shorter, as sorting leaves nothing out
  have hperm := List.mergeSort_perm l fun a b => f a ≤ f b
  have hsame : (l.filter fun a => f a = k).Pairwise fun a b => decide (f a ≤ f b) = true := by
    rw [List.pairwise_filter]
    refine List.pairwise_of_forall ?_
    intro a b ha hb
    rw [decide_eq_true_iff] at ha hb ⊢
    omega
  have hsub := (List.sublist_mergeSort (le_trans_by f) (le_total_by f) hsame
    List.filter_sublist).filter fun a => f a = k
  rw [List.filter_filter] at hsub
  simp only [Bool.and_self] at hsub
  exact (hsub.eq_of_length (hperm.filter _).length_eq.symm).symm

/-- **Sorting by a number** puts together what has the same number, the smaller numbers first. -/
theorem mergeSort_eq_fibers {α : Type} (f : α → Nat) {n : Nat} {l : List α}
    (hl : ∀ a ∈ l, f a < n) :
    (l.mergeSort fun a b => f a ≤ f b) =
      (List.range n).flatMap fun k => l.filter fun a => f a = k := by
  have hbelow : ∀ m, ((List.range m).flatMap fun k => l.filter fun a => f a = k)
      = (l.mergeSort fun a b => f a ≤ f b).filter fun a => f a < m := by
    intro m
    induction m with
    | zero => simp
    | succ m ih =>
      -- what has the number `m` comes next, in the order it had before sorting
      rw [filter_lt_succ f m (pairwise_mergeSort f l), filter_mergeSort, List.range_succ,
        List.flatMap_append, ih]
      simp
  rw [hbelow n, eq_comm, List.filter_eq_self]
  exact fun a ha => decide_eq_true (hl a (List.mem_mergeSort.mp ha))

/-! ### Opening a block -/

/-- What stands in the blocks stays there when another one is opened, and the new one is empty. -/
theorem read_push {β : Type} (t : BlockTree κ ν τ) (kinds : List κ) (i : Nat) (nothing : β)
    {read : Scope κ ν τ → β} (hchildren : ∀ b cs, read { b with children := cs } = read b)
    (hnew : read { parent := t.stack.head?, kinds } = nothing) :
    (t.push kinds).blocks[i]?.elim nothing read = t.blocks[i]?.elim nothing read := by
  rw [getElem?_push]
  by_cases hi : i = t.blocks.size
  · simp [hi, hnew]
  · by_cases htop : t.stack.head? = some i
    · cases hb : t.blocks[i]? <;> simp [hi, htop, hchildren]
    · simp [hi, htop]

/-- Looking up a definition reads one block. In this form `read_push` and `read_update` apply to
    it. -/
theorem definition?_eq_elim (t : BlockTree κ ν τ) (id : String) (i : Nat) :
    t.definition? id i = t.blocks[i]?.elim none fun b => b.definitions.get? id := by
  unfold definition?
  cases t.blocks[i]? <;> rfl

/-- What waits for an identifier is read from one block too; a block that does not list the
    identifier has nothing waiting for it. -/
theorem waitingFor_eq_elim (t : BlockTree κ ν τ) (i : Nat) (id : String) :
    t.waitingFor i id = t.blocks[i]?.elim [] fun b => (b.outstanding.get? id).getD [] := by
  unfold waitingFor
  cases t.blocks[i]? <;> rfl

/-- Opening a block makes no definitions. -/
@[simp]
theorem definition?_push (t : BlockTree κ ν τ) (kinds : List κ) (id : String) (i : Nat) :
    (t.push kinds).definition? id i = t.definition? id i := by
  rw [definition?_eq_elim, definition?_eq_elim]
  exact t.read_push kinds i none (fun _ _ => rfl) rfl

/-- Opening a block makes nothing wait, and lets nothing go. -/
@[simp]
theorem waitingFor_push (t : BlockTree κ ν τ) (kinds : List κ) (i : Nat) (id : String) :
    (t.push kinds).waitingFor i id = t.waitingFor i id := by
  rw [waitingFor_eq_elim, waitingFor_eq_elim]
  exact t.read_push kinds i [] (fun _ _ => rfl) rfl

/-- The block that is opened takes the kinds it is opened for, and the others take what they
    took. -/
theorem kindsOf_push (t : BlockTree κ ν τ) (kinds : List κ) (i : Nat) :
    (t.push kinds).kindsOf i = if i = t.blocks.size then kinds else t.kindsOf i := by
  unfold kindsOf
  rw [getElem?_push]
  by_cases hi : i = t.blocks.size
  · simp [hi]
  · by_cases htop : t.stack.head? = some i
    · cases hb : t.blocks[i]? <;> simp [hi, htop]
    · simp [hi, htop]

/-! ### Changes of what waits -/

/-- Whether two trees have the same blocks with the same definitions, whatever waits in them. -/
structure SameView (t t' : BlockTree κ ν τ) : Prop extends SameShape t t' where
  definitions : ∀ id i, t'.definition? id i = t.definition? id i
  sequence : t'.sequence = t.sequence

/-- A tree is seen as itself. -/
theorem SameView.refl (t : BlockTree κ ν τ) : t.SameView t :=
  ⟨.refl t, fun _ _ => rfl, rfl⟩

/-- Changes that nobody looking for definitions sees may follow one another. -/
theorem SameView.trans {t t' t'' : BlockTree κ ν τ} (h : t.SameView t') (h' : t'.SameView t'') :
    t.SameView t'' :=
  ⟨h.toSameShape.trans h'.toSameShape,
    fun id i => (h'.definitions id i).trans (h.definitions id i), h'.sequence.trans h.sequence⟩

/-- What is visible from a block depends on the ways up and the definitions only, and not on what
    waits. -/
theorem SameView.lookup [Kind κ] {t t' : BlockTree κ ν τ} (h : t.SameView t') (i : Nat)
    (id : String) (kind : κ) : t'.lookup i id kind = t.lookup i id kind := by
  unfold BlockTree.lookup
  rw [h.chain, funext (h.definitions id)]

/-- So does whether a requirement is met. -/
theorem SameView.met? [Kind κ] {t t' : BlockTree κ ν τ} (h : t.SameView t') (id : String)
    (i : Nat) : t'.met? id i = t.met? id i := by
  funext d
  rw [BlockTree.met?, BlockTree.met?, h.lookup]

/-- A change of what waits in a block is not seen by those who look for definitions. -/
theorem update_sameView (t : BlockTree κ ν τ) (i : Nat)
    (change : IdMap (List (Demand κ τ)) → IdMap (List (Demand κ τ))) :
    t.SameView (t.update i fun b => { b with outstanding := change b.outstanding }) where
  toSameShape := t.update_sameShape i (fun _ => rfl) (fun _ => rfl) fun _ => rfl
  definitions := fun id j => by
    rw [definition?_eq_elim, definition?_eq_elim]
    exact t.read_update i j none fun _ => rfl
  sequence := rfl

/-- What waits after a change of what waits in a block. -/
theorem waitingFor_update (t : BlockTree κ ν τ) {i : Nat}
    (change : IdMap (List (Demand κ τ)) → IdMap (List (Demand κ τ))) {id : String}
    {now : List (Demand κ τ)} (hnone : t.blocks[i]? = none → now = [])
    (hchange : ∀ b, t.blocks[i]? = some b → ∀ other, ((change b.outstanding).get? other).getD []
      = if other = id then now else (b.outstanding.get? other).getD []) (j : Nat) (other : String) :
    (t.update i fun b => { b with outstanding := change b.outstanding }).waitingFor j other
      = if j = i ∧ other = id then now else t.waitingFor j other := by
  rw [waitingFor_eq_elim, waitingFor_eq_elim, getElem?_update]
  -- only the block that changes has to be looked into
  by_cases hj : j = i
  · subst hj
    cases hb : t.blocks[j]? with
    | none => by_cases hid : other = id <;> simp [hid, hnone hb]
    | some b => simpa using hchange b hb other
  · simp [hj, Ne.symm hj]

/-- Nor is a requirement that starts waiting. -/
theorem await_sameView (t : BlockTree κ ν τ) (i : Nat) (d : Demand κ τ) :
    t.SameView (t.await i d) :=
  t.update_sameView i fun m => m.put d.id ((m.get? d.id).getD [] ++ [d])

/-- A requirement waits behind those for the same identifier in its block. -/
theorem waitingFor_await (t : BlockTree κ ν τ) {i : Nat} (hi : i < t.blocks.size) (d : Demand κ τ)
    (j : Nat) (other : String) :
    (t.await i d).waitingFor j other
      = if j = i ∧ other = d.id then t.waitingFor i d.id ++ [d] else t.waitingFor j other := by
  refine t.waitingFor_update (fun m => m.put d.id ((m.get? d.id).getD [] ++ [d])) ?_ ?_ j other
  · simp [hi]
  · intro b hb name
    rw [IdMap.get?_put, waitingFor_eq_elim, hb]
    by_cases hname : name = d.id <;> simp [hname]

section Kinds

variable [Kind κ]

/-- Going through what waits in a block changes no definition. -/
theorem retryIn_sameView (t : BlockTree κ ν τ) (id : String) (i : Nat) :
    t.SameView (t.retryIn id i).1 :=
  t.update_sameView i fun m =>
    if ((t.waitingFor i id).filter fun d => (t.met? id i d).isNone).isEmpty then m.remove id
    else m.put id ((t.waitingFor i id).filter fun d => (t.met? id i d).isNone)

/-- Going through one identifier of one block keeps what still cannot be met, and touches nothing
    else. An identifier that nothing waits for any more is not listed, which reads the same. -/
theorem waitingFor_retryIn (t : BlockTree κ ν τ) (id : String) (i j : Nat) (other : String) :
    (t.retryIn id i).1.waitingFor j other
      = if j = i ∧ other = id then (t.waitingFor i id).filter fun d => (t.met? id i d).isNone
        else t.waitingFor j other := by
  generalize hstill : ((t.waitingFor i id).filter fun d => (t.met? id i d).isNone) = still
  -- what still waits is filed under the name again, unless nothing does
  have hretry : (t.retryIn id i).1 = t.update i fun b =>
      { b with outstanding :=
        if still.isEmpty then b.outstanding.remove id else b.outstanding.put id still } := by
    rw [← hstill]
    rfl
  rw [hretry]
  refine t.waitingFor_update (fun m => if still.isEmpty then m.remove id else m.put id still)
    ?_ ?_ j other
  · intro hnone
    rw [← hstill, waitingFor_eq_elim, hnone]
    rfl
  · intro b _ name
    cases still with
    | nil => by_cases hname : name = id <;> simp [hname]
    | cons d ds => by_cases hname : name = id <;> simp [hname]

/-- Going through some blocks changes no definition. -/
theorem retry_sameView (t : BlockTree κ ν τ) (id : String) (is : List Nat) :
    t.SameView (t.retry id is).1 := by
  induction is generalizing t with
  | nil => exact .refl t
  | cons i is ih => exact (t.retryIn_sameView id i).trans (ih _)

/-- **Going through some blocks** leaves what still cannot be met. -/
theorem waitingFor_retry (t : BlockTree κ ν τ) (id : String) {is : List Nat} (his : is.Nodup)
    (j : Nat) (other : String) :
    (t.retry id is).1.waitingFor j other
      = if j ∈ is ∧ other = id then (t.waitingFor j id).filter fun d => (t.met? id j d).isNone
        else t.waitingFor j other := by
  induction is generalizing t with
  | nil => simp [retry]
  | cons i is ih =>
    rw [List.nodup_cons] at his
    show ((t.retryIn id i).1.retry id is).1.waitingFor j other = _
    -- what the first block decided has changed no definition, so the others are gone through as if
    -- it had not been
    rw [ih _ his.2, (t.retryIn_sameView id i).met?, waitingFor_retryIn, waitingFor_retryIn]
    by_cases hj : j = i
    · subst hj
      by_cases hid : other = id <;> simp [his.1, hid]
    · by_cases hid : other = id <;> simp [hj, hid]

/-- It decides what waits there and can be met, block by block. -/
theorem outcomes_retry (t : BlockTree κ ν τ) (id : String) {is : List Nat} (his : is.Nodup) :
    (t.retry id is).2 = is.flatMap fun j => (t.waitingFor j id).filterMap (t.met? id j) := by
  induction is generalizing t with
  | nil => rfl
  | cons i is ih =>
    rw [List.nodup_cons] at his
    show (t.retryIn id i).2 ++ ((t.retryIn id i).1.retry id is).2 = _
    rw [ih _ his.2, List.flatMap_cons]
    congr 1
    refine List.flatMap_congr fun j hj => ?_
    have hne : j ≠ i := by rintro rfl; exact his.1 hj
    rw [(t.retryIn_sameView id i).met?, waitingFor_retryIn, if_neg fun h => hne h.1]

end Kinds

/-! ### A new definition -/

/-- A definition that is entered moves no block. -/
theorem enter_sameShape (t : BlockTree κ ν τ) (i : Nat) (id : String) (e : Entry κ ν) :
    t.SameShape (t.enter i id e) :=
  t.update_sameShape i (fun _ => rfl) (fun _ => rfl) fun _ => rfl

/-- A definition that is entered wakes nothing by itself. -/
@[simp]
theorem waitingFor_enter (t : BlockTree κ ν τ) (i : Nat) (id : String) (e : Entry κ ν) (j : Nat)
    (other : String) : (t.enter i id e).waitingFor j other = t.waitingFor j other := by
  rw [waitingFor_eq_elim, waitingFor_eq_elim]
  exact t.read_update i j [] fun _ => rfl

/-- A definition that is entered is found under its identifier in its block, and nothing else
    changes. -/
theorem definition?_enter (t : BlockTree κ ν τ) {i : Nat} (hi : i < t.blocks.size) (id : String)
    (e : Entry κ ν) (other : String) (j : Nat) :
    (t.enter i id e).definition? other j
      = if j = i ∧ other = id then some e else t.definition? other j := by
  rw [definition?_eq_elim, definition?_eq_elim, enter, getElem?_update]
  by_cases hj : j = i
  · subst hj
    by_cases hid : other = id <;> simp [hi, hid]
  · simp [hj, Ne.symm hj]

/-! ### Everything that waits in a block -/

/-- What the map of a block lists is what waits there. -/
theorem outstanding_perm (t : BlockTree κ ν τ) {i : Nat} {l : List (Demand κ τ)}
    (hl : ∀ id, t.waitingFor i id = l.filter fun d => d.id = id) :
    (t.outstanding i).Perm l := by
  cases hb : t.blocks[i]? with
  | none =>
    have hnone : l = [] := by
      refine List.eq_nil_iff_forall_not_mem.mpr fun d hd => ?_
      have hin : d ∈ t.waitingFor i d.id := by
        rw [hl]
        exact List.mem_filter.mpr ⟨hd, decide_eq_true rfl⟩
      rw [waitingFor_eq_elim, hb] at hin
      exact List.not_mem_nil hin
    rw [hnone, outstanding, hb]
    exact .nil
  | some b =>
    have hget : ∀ id, (b.outstanding.get? id).getD [] = l.filter fun d => d.id = id := by
      intro id
      rw [← hl, waitingFor_eq_elim, hb]
      rfl
    -- the map lists what waits identifier by identifier, in whatever order it keeps them
    have hvalues : t.outstanding i = (b.outstanding.pairs.map Prod.fst).flatMap fun id =>
        l.filter fun d => d.id = id := by
      rw [outstanding, hb, Option.elim_some, IdMap.values, List.flatMap_map, ← List.flatMap_def]
      refine List.flatMap_congr fun p hp => ?_
      rw [← hget, (b.outstanding.mem_pairs_iff p.1 p.2).mp hp]
      rfl
    rw [hvalues]
    refine fibers_perm Demand.id b.outstanding.nodup fun d hd => ?_
    -- what waits for an identifier is listed under it
    cases hnone : b.outstanding.get? d.id with
    | none =>
      have hin : d ∈ l.filter fun d' => d'.id = d.id :=
        List.mem_filter.mpr ⟨hd, decide_eq_true rfl⟩
      rw [← hget, hnone] at hin
      exact absurd hin List.not_mem_nil
    | some ds =>
      exact List.mem_map.mpr ⟨(d.id, ds), (b.outstanding.mem_pairs_iff d.id ds).mpr hnone, rfl⟩

end BlockTree

end Formwork
