import Mathlib.Data.List.Nodup
import Formwork.BlockTree

namespace Formwork

/-!
# The shape of the tree

How the blocks of a tree lie to each other, which no call but opening and closing changes.

* `BlockTree.SameShape` — two trees with the same blocks in the same places.
* `BlockTree.Planted` — the children of a block are those it is the parent of, the open blocks are a
  way up, and the blocks in a block come one after another.
* `BlockTree.Planted.subtree_eq` — so the blocks in a block are gone through in the order in which
  they were opened.
-/

variable {κ ν τ : Type}

namespace BlockTree

/-! ### Ways up -/

/-- A way up starts with the block and goes on from the one around it. Parents come before their
    children, and a number that does not is where the way ends. -/
theorem chain_eq (t : BlockTree κ ν τ) (i : Nat) :
    t.chain i = i :: (t.parent? i).elim [] fun p => if p < i then t.chain p else [] := by
  rw [chain]
  cases t.parent? i <;> rfl

/-- The way up from a block starts there. -/
theorem mem_chain_self (t : BlockTree κ ν τ) (i : Nat) : i ∈ t.chain i := by
  rw [chain_eq]
  exact List.mem_cons_self

/-- On a way up, a block is followed by the one around it. -/
theorem mem_chain_iff {t : BlockTree κ ν τ} {i j : Nat} :
    j ∈ t.chain i ↔ j = i ∨ ∃ p, t.parent? i = some p ∧ p < i ∧ j ∈ t.chain p := by
  rw [chain_eq, List.mem_cons]
  refine or_congr_right ?_
  cases hp : t.parent? i with
  | none => simp
  | some p => by_cases hlt : p < i <;> simp [hlt]

/-- The blocks around a block were opened before it. -/
theorem le_of_mem_chain {t : BlockTree κ ν τ} {i j : Nat} (hj : j ∈ t.chain i) : j ≤ i := by
  -- a way up leads to smaller numbers, so the induction is on the number of the block
  induction i using Nat.strongRecOn with
  | _ i ih =>
    obtain rfl | ⟨p, -, hlt, hj⟩ := mem_chain_iff.mp hj
    · exact Nat.le_refl j
    · exact Nat.le_trans (ih p hlt hj) (Nat.le_of_lt hlt)

/-- What is around a block is around everything in that block. -/
theorem mem_chain_trans {t : BlockTree κ ν τ} {i j k : Nat} (hj : j ∈ t.chain i)
    (hk : k ∈ t.chain j) : k ∈ t.chain i := by
  induction i using Nat.strongRecOn with
  | _ i ih =>
    obtain rfl | ⟨p, hp, hlt, hj⟩ := mem_chain_iff.mp hj
    · exact hk
    · exact mem_chain_iff.mpr (.inr ⟨p, hp, hlt, ih p hlt hj⟩)

/-- A block around another one has a child on the way. -/
theorem exists_child_of_mem_chain {t : BlockTree κ ν τ} {i j : Nat} (hj : j ∈ t.chain i)
    (hne : j ≠ i) : ∃ c, t.parent? c = some j ∧ j < c ∧ c ∈ t.chain i := by
  induction i using Nat.strongRecOn with
  | _ i ih =>
    obtain rfl | ⟨p, hp, hlt, hj⟩ := mem_chain_iff.mp hj
    · exact absurd rfl hne
    · -- either the parent is the block that is looked for, or the child is further up
      by_cases hpj : j = p
      · subst hpj
        exact ⟨i, hp, hlt, t.mem_chain_self i⟩
      · obtain ⟨c, hc, hjc, hchain⟩ := ih p hlt hj hpj
        exact ⟨c, hc, hjc, mem_chain_iff.mpr (.inr ⟨p, hp, hlt, hchain⟩)⟩

/-- The way up from a block depends only on the blocks before it. -/
theorem chain_congr {t t' : BlockTree κ ν τ} {i : Nat}
    (hparents : ∀ j ≤ i, t'.parent? j = t.parent? j) : t'.chain i = t.chain i := by
  induction i using Nat.strongRecOn with
  | _ i ih =>
    rw [chain_eq, chain_eq, hparents i (Nat.le_refl i)]
    cases t.parent? i with
    | none => rfl
    | some p =>
      by_cases hlt : p < i
      · have hsame := ih p hlt fun j hj =>
          hparents j (Nat.le_trans hj (Nat.le_of_lt hlt))
        simp only [Option.elim_some, hlt, if_true, hsame]
      · simp only [Option.elim_some, hlt, if_false]

/-! ### Changes that keep the shape -/

/-- Whether two trees have the same blocks in the same places, whatever is in them. -/
structure SameShape (t t' : BlockTree κ ν τ) : Prop where
  size : t'.blocks.size = t.blocks.size
  stack : t'.stack = t.stack
  parents : ∀ i, t'.parent? i = t.parent? i
  children : ∀ i, t'.children i = t.children i
  kinds : ∀ i, t'.kindsOf i = t.kindsOf i

/-- Doing nothing keeps the shape. -/
theorem SameShape.refl (t : BlockTree κ ν τ) : t.SameShape t :=
  ⟨rfl, rfl, fun _ => rfl, fun _ => rfl, fun _ => rfl⟩

/-- Counting on changes no block. -/
theorem sameShape_count (t : BlockTree κ ν τ) (n : Nat) : t.SameShape { t with sequence := n } :=
  ⟨rfl, rfl, fun _ => rfl, fun _ => rfl, fun _ => rfl⟩

/-- Changes that keep the shape may follow one another. -/
theorem SameShape.trans {t t' t'' : BlockTree κ ν τ} (h : t.SameShape t') (h' : t'.SameShape t'') :
    t.SameShape t'' where
  size := h'.size.trans h.size
  stack := h'.stack.trans h.stack
  parents := fun i => (h'.parents i).trans (h.parents i)
  children := fun i => (h'.children i).trans (h.children i)
  kinds := fun i => (h'.kinds i).trans (h.kinds i)

/-- In trees of one shape the ways up are the same. -/
theorem SameShape.chain {t t' : BlockTree κ ν τ} (h : t.SameShape t') (i : Nat) :
    t'.chain i = t.chain i :=
  chain_congr fun j _ => h.parents j

/-- So is the way up from the innermost open block. -/
theorem SameShape.here {t t' : BlockTree κ ν τ} (h : t.SameShape t') : t'.here = t.here := by
  rw [BlockTree.here, BlockTree.here, h.stack, funext h.chain]

/-- Changing a block changes that one only. -/
theorem getElem?_update (t : BlockTree κ ν τ) (i j : Nat) (f : Scope κ ν τ → Scope κ ν τ) :
    (t.update i f).blocks[j]? = if i = j then t.blocks[j]?.map f else t.blocks[j]? :=
  Array.getElem?_modify

/-- Changing a block opens none. -/
@[simp]
theorem size_update (t : BlockTree κ ν τ) (i : Nat) (f : Scope κ ν τ → Scope κ ν τ) :
    (t.update i f).blocks.size = t.blocks.size :=
  Array.size_modify

/-- A change of a block that a reader does not see. -/
theorem read_update {β : Type} (t : BlockTree κ ν τ) (i j : Nat) {f : Scope κ ν τ → Scope κ ν τ}
    (nothing : β) {read : Scope κ ν τ → β} (hread : ∀ b, read (f b) = read b) :
    (t.update i f).blocks[j]?.elim nothing read = t.blocks[j]?.elim nothing read := by
  rw [getElem?_update]
  by_cases hij : i = j
  · rw [if_pos hij]
    cases t.blocks[j]? with
    | none => rfl
    | some b => exact hread b
  · rw [if_neg hij]

/-- A change of a block that leaves its parent, its children and its kinds alone keeps the shape. -/
theorem update_sameShape (t : BlockTree κ ν τ) (i : Nat) {f : Scope κ ν τ → Scope κ ν τ}
    (hparent : ∀ b, (f b).parent = b.parent) (hchildren : ∀ b, (f b).children = b.children)
    (hkinds : ∀ b, (f b).kinds = b.kinds) : t.SameShape (t.update i f) where
  size := t.size_update i f
  stack := rfl
  parents := fun j => by
    have hread := t.read_update i j none hparent
    unfold parent?
    cases h : (t.update i f).blocks[j]? <;> cases h' : t.blocks[j]? <;> simp_all
  children := fun j => t.read_update i j [] hchildren
  kinds := fun j => t.read_update i j [] hkinds

/-! ### Opening a block -/

/-- Opening a block adds it after the others, and to the children of the innermost open one. -/
theorem getElem?_push (t : BlockTree κ ν τ) (kinds : List κ) (j : Nat) :
    (t.push kinds).blocks[j]? =
      if j = t.blocks.size then some { parent := t.stack.head?, kinds }
      else if t.stack.head? = some j then
        t.blocks[j]?.map fun b => { b with children := b.children ++ [t.blocks.size] }
      else t.blocks[j]? := by
  -- whether a block is open decides whether one is changed besides the new one
  cases htop : t.stack.head? with
  | none => simp [push, htop, Array.getElem?_push]
  | some top => simp [push, htop, Array.getElem?_push, getElem?_update]

/-- Opening a block makes the tree one block larger. -/
@[simp]
theorem size_push (t : BlockTree κ ν τ) (kinds : List κ) :
    (t.push kinds).blocks.size = t.blocks.size + 1 := by
  cases htop : t.stack.head? <;> simp [push, htop]

/-- The block that is opened is the innermost open one. -/
@[simp]
theorem stack_push (t : BlockTree κ ν τ) (kinds : List κ) :
    (t.push kinds).stack = t.blocks.size :: t.stack :=
  rfl

/-- The new block is in the innermost open one, and the others stay where they are. -/
theorem parent?_push (t : BlockTree κ ν τ) (kinds : List κ) (i : Nat) :
    (t.push kinds).parent? i = if i = t.blocks.size then t.stack.head? else t.parent? i := by
  unfold parent?
  rw [getElem?_push]
  by_cases hnew : i = t.blocks.size
  · simp [hnew]
  · by_cases htop : t.stack.head? = some i
    · cases hb : t.blocks[i]? <;> simp [hnew, htop]
    · simp [hnew, htop]

/-- The innermost open block has one child more, after those it had. -/
theorem children_push (t : BlockTree κ ν τ) (hinside : ∀ i ∈ t.stack, i < t.blocks.size)
    (kinds : List κ) (i : Nat) :
    (t.push kinds).children i =
      t.children i ++ if t.stack.head? = some i then [t.blocks.size] else [] := by
  unfold children
  rw [getElem?_push]
  by_cases htop : t.stack.head? = some i
  · have hlt := hinside i (List.mem_of_head? htop)
    have hold : i ≠ t.blocks.size := Nat.ne_of_lt hlt
    simp [hold, htop, hlt]
  · by_cases hnew : i = t.blocks.size
    · simp [hnew] at htop ⊢
      simp [htop]
    · simp [hnew, htop]

/-! ### Trees that were grown -/

/-- How the blocks lie in a tree that was made by opening and closing blocks. -/
structure Planted (t : BlockTree κ ν τ) : Prop where
  parents : ∀ i p, t.parent? i = some p → p < i
  children : ∀ i, t.children i =
    (List.range t.blocks.size).filter fun j => t.parent? j = some i
  stack : t.stack = t.here
  inside : ∀ i ∈ t.stack, i < t.blocks.size
  cleared : t.stack = [] → t.blocks.size = 0
  /-- All blocks are in the first one. -/
  rooted : ∀ i < t.blocks.size, 0 ∈ t.chain i
  /-- The blocks in a block come one after another. -/
  inRow : ∀ i j k, i ≤ j → j ≤ k → k < t.blocks.size → i ∈ t.chain k → i ∈ t.chain j
  /-- As long as a block is open, all blocks are opened in it. -/
  opened : ∀ i ∈ t.stack, ∀ j < t.blocks.size, i ≤ j → i ∈ t.chain j

/-- A tree without blocks is grown. -/
theorem Planted.of_empty : (empty : BlockTree κ ν τ).Planted where
  parents := by simp [empty, parent?]
  children := by simp [empty, BlockTree.children]
  stack := rfl
  inside := by simp [empty]
  cleared := fun _ => rfl
  rooted := by simp [empty]
  inRow := by simp [empty]
  opened := by simp [empty]

/-- Whether a tree is grown depends on its shape only. -/
theorem SameShape.planted {t t' : BlockTree κ ν τ} (h : t.SameShape t') (ht : t.Planted) :
    t'.Planted where
  parents := fun i p hp => ht.parents i p (by rwa [h.parents] at hp)
  children := fun i => by rw [h.children, ht.children, h.size, funext h.parents]
  stack := by rw [h.stack, h.here, ht.stack]
  inside := by rw [h.stack, h.size]; exact ht.inside
  cleared := by rw [h.stack, h.size]; exact ht.cleared
  rooted := by rw [h.size, funext h.chain]; exact ht.rooted
  inRow := by rw [h.size, funext h.chain]; exact ht.inRow
  opened := by rw [h.stack, h.size, funext h.chain]; exact ht.opened

/-- Opening a block leaves the ways up from the others as they are. -/
theorem chain_push_of_lt {t : BlockTree κ ν τ} {kinds : List κ} {i : Nat}
    (hi : i < t.blocks.size) : (t.push kinds).chain i = t.chain i :=
  chain_congr fun j hj => by
    rw [parent?_push, if_neg (Nat.ne_of_lt (Nat.lt_of_le_of_lt hj hi))]

/-- The way up from a block that is opened leads through the open ones. -/
theorem Planted.chain_push {t : BlockTree κ ν τ} (h : t.Planted) (kinds : List κ) :
    (t.push kinds).chain t.blocks.size = t.blocks.size :: t.stack := by
  rw [chain_eq, parent?_push, if_pos rfl]
  cases htop : t.stack.head? with
  | none => rw [List.head?_eq_none_iff.mp htop, Option.elim_none]
  | some top =>
    have hlt := h.inside top (List.mem_of_head? htop)
    have hup := h.stack
    rw [here, htop, Option.elim_some] at hup
    rw [Option.elim_some, if_pos hlt, chain_push_of_lt hlt, ← hup]

/-- **Opening a block keeps the tree grown.** The number of the new block is greater than all
    others, so it may only come last: among the children of the block around it, and in the row of
    each block that is still open. -/
theorem Planted.push {t : BlockTree κ ν τ} (h : t.Planted) (kinds : List κ) :
    (t.push kinds).Planted := by
  have hold : ∀ i < t.blocks.size, (t.push kinds).chain i = t.chain i :=
    fun i hi => chain_push_of_lt hi
  have hnew := h.chain_push kinds
  refine
    { parents := ?_, children := ?_, stack := ?_, inside := ?_, cleared := ?_, rooted := ?_
      inRow := ?_, opened := ?_ }
  · intro i p hp
    rw [parent?_push] at hp
    by_cases hi : i = t.blocks.size
    · rw [if_pos hi] at hp
      exact hi ▸ h.inside p (List.mem_of_head? hp)
    · rw [if_neg hi] at hp
      exact h.parents i p hp
  · -- the new block comes last among the children of the innermost open one
    intro i
    have hbefore : ((List.range t.blocks.size).filter fun j => (t.push kinds).parent? j = some i)
        = t.children i := by
      rw [h.children]
      refine List.filter_congr fun j hj => ?_
      rw [parent?_push, if_neg (Nat.ne_of_lt (List.mem_range.mp hj))]
    rw [children_push t h.inside, size_push, List.range_succ, List.filter_append, hbefore]
    by_cases htop : t.stack.head? = some i <;> simp [parent?_push, htop]
  · rw [stack_push, BlockTree.here, stack_push, List.head?_cons, Option.elim_some, hnew]
  · intro i hi
    rw [size_push]
    obtain rfl | hi := List.mem_cons.mp hi
    · exact Nat.lt_succ_self _
    · exact Nat.lt_succ_of_lt (h.inside i hi)
  · simp
  · intro i hi
    rw [size_push] at hi
    -- a new block is in all that are open, the first one among them
    obtain hi | rfl := Nat.lt_or_eq_of_le (Nat.le_of_lt_succ hi)
    · rw [hold i hi]
      exact h.rooted i hi
    · rw [hnew, h.stack]
      cases htop : t.stack.head? with
      | none => simp [h.cleared (List.head?_eq_none_iff.mp htop)]
      | some top =>
        have hroot := h.rooted top (h.inside top (List.mem_of_head? htop))
        exact List.mem_cons_of_mem _ (by rwa [here, htop])
  · intro i j k hij hjk hk hi
    rw [size_push] at hk
    -- what is between an open block and the new one was opened in the open one
    obtain hk | rfl := Nat.lt_or_eq_of_le (Nat.le_of_lt_succ hk)
    · rw [hold k hk] at hi
      rw [hold j (Nat.lt_of_le_of_lt hjk hk)]
      exact h.inRow i j k hij hjk hk hi
    · obtain hjk | rfl := Nat.lt_or_eq_of_le hjk
      · rw [hnew] at hi
        obtain rfl | hi := List.mem_cons.mp hi
        · exact absurd hij (Nat.not_le_of_lt hjk)
        · rw [hold j hjk]
          exact h.opened i hi j hjk hij
      · exact hi
  · intro i hi j hj hij
    rw [size_push] at hj
    obtain hj | rfl := Nat.lt_or_eq_of_le (Nat.le_of_lt_succ hj)
    · obtain rfl | hi := List.mem_cons.mp hi
      · exact absurd hij (Nat.not_le_of_lt hj)
      · rw [hold j hj]
        exact h.opened i hi j hj hij
    · rw [hnew]
      exact hi

/-- When a block is closed but the outermost one, the open ones are the way up from the next. -/
theorem Planted.closed {t : BlockTree κ ν τ} (h : t.Planted) {top : Nat} {rest : List Nat}
    (hstack : t.stack = top :: rest) (hrest : rest ≠ []) :
    ({ t with stack := rest } : BlockTree κ ν τ).Planted := by
  have hchain : ∀ i, ({ t with stack := rest } : BlockTree κ ν τ).chain i = t.chain i :=
    fun i => chain_congr fun _ _ => rfl
  have hmem : ∀ i ∈ rest, i ∈ t.stack := fun i hi => hstack ▸ List.mem_cons_of_mem top hi
  refine
    { parents := h.parents, children := h.children, stack := ?_
      inside := fun i hi => h.inside i (hmem i hi), cleared := fun hnil => absurd hnil hrest
      rooted := by rw [funext hchain]; exact h.rooted
      inRow := by rw [funext hchain]; exact h.inRow
      opened := by rw [funext hchain]; exact fun i hi => h.opened i (hmem i hi) }
  -- the open blocks were the way up from `top`, which goes on from its parent
  have hup := h.stack
  rw [here, hstack, List.head?_cons, Option.elim_some, chain_eq] at hup
  have hup := (List.cons.inj hup).2
  cases hp : t.parent? top with
  | none => simp [hp] at hup; exact absurd hup hrest
  | some p =>
    have hlt := h.parents top p hp
    rw [hp, Option.elim_some, if_pos hlt] at hup
    show rest = rest.head?.elim [] _
    rw [funext hchain, hup, chain_eq, List.head?_cons, Option.elim_some, ← chain_eq]

/-! ### Ways down -/

/-- Two lists that grow and have the same members are the same. -/
theorem eq_of_growing {l l' : List Nat} (h : l.Pairwise (· < ·)) (h' : l'.Pairwise (· < ·))
    (hmem : ∀ i, i ∈ l ↔ i ∈ l') : l = l' := by
  have hperm := (List.perm_ext_iff_of_nodup (h.imp Nat.ne_of_lt) (h'.imp Nat.ne_of_lt)).mpr hmem
  exact hperm.eq_of_pairwise (fun i j _ _ hij hji => absurd hij (Nat.lt_asymm hji)) h h'

/-- The children of a block are those it is the parent of. -/
theorem Planted.mem_children_iff {t : BlockTree κ ν τ} (h : t.Planted) {i j : Nat} :
    j ∈ t.children i ↔ j < t.blocks.size ∧ t.parent? j = some i := by
  rw [h.children, List.mem_filter, List.mem_range, decide_eq_true_iff]

/-- **The blocks in a block** are gone through in the order in which they were opened. -/
theorem Planted.subtree_eq {t : BlockTree κ ν τ} (h : t.Planted) {i : Nat}
    (hi : i < t.blocks.size) :
    t.subtree i = (List.range t.blocks.size).filter fun j => i ∈ t.chain j := by
  generalize hleft : t.blocks.size - i = left
  induction left using Nat.strongRecOn generalizing i with
  | _ left ih =>
    subst hleft
    have hchildren : ∀ c ∈ t.children i, i < c ∧ c < t.blocks.size := fun c hc =>
      ⟨h.parents c i (h.mem_children_iff.mp hc).2, (h.mem_children_iff.mp hc).1⟩
    have hdown : t.subtree i = i :: (t.children i).flatMap fun c =>
        (List.range t.blocks.size).filter fun j => c ∈ t.chain j := by
      rw [subtree]
      congr 1
      refine List.flatMap_congr fun c hc => ?_
      obtain ⟨hic, hcs⟩ := hchildren c hc
      rw [if_pos ⟨hic, hcs⟩]
      -- a child was opened later, and fewer blocks come after it
      exact ih _ (by omega) hcs rfl
    -- both lists grow, so it is enough that they have the same members
    rw [hdown]
    refine eq_of_growing (List.pairwise_cons.mpr ⟨?_, List.pairwise_flatMap.mpr ⟨?_, ?_⟩⟩)
      (List.pairwise_lt_range.filter _) fun j => ?_
    · intro j hj
      obtain ⟨c, hc, hj⟩ := List.mem_flatMap.mp hj
      have hcj := le_of_mem_chain (of_decide_eq_true (List.mem_filter.mp hj).2)
      exact Nat.lt_of_lt_of_le (hchildren c hc).1 hcj
    · exact fun c _ => List.pairwise_lt_range.filter _
    · -- the blocks in an earlier child come before those in a later one
      have hgrow : (t.children i).Pairwise (· < ·) := by
        rw [h.children]
        exact List.pairwise_lt_range.filter _
      refine hgrow.imp_of_mem ?_
      intro c d hc hd hcd j hj k hk
      by_contra hle
      have hj := List.mem_filter.mp hj
      have hdk := le_of_mem_chain (of_decide_eq_true (List.mem_filter.mp hk).2)
      have hin := h.inRow c d j (Nat.le_of_lt hcd) (Nat.le_trans hdk (Nat.le_of_not_lt hle))
        (List.mem_range.mp hj.1) (of_decide_eq_true hj.2)
      obtain rfl | ⟨p, hp, -, hcp⟩ := mem_chain_iff.mp hin
      · exact Nat.lt_irrefl c hcd
      · rw [(h.mem_children_iff.mp hd).2] at hp
        obtain rfl := Option.some.inj hp
        exact Nat.not_le_of_lt (hchildren c hc).1 (le_of_mem_chain hcp)
    · rw [List.mem_cons, List.mem_flatMap, List.mem_filter, List.mem_range, decide_eq_true_iff]
      constructor
      · rintro (rfl | ⟨c, hc, hj⟩)
        · exact ⟨hi, t.mem_chain_self j⟩
        · rw [List.mem_filter, List.mem_range, decide_eq_true_iff] at hj
          have hup : i ∈ t.chain c := mem_chain_iff.mpr
            (.inr ⟨i, (h.mem_children_iff.mp hc).2, (hchildren c hc).1, t.mem_chain_self i⟩)
          exact ⟨hj.1, mem_chain_trans hj.2 hup⟩
      · rintro ⟨hj, hup⟩
        by_cases hne : i = j
        · exact .inl hne.symm
        · obtain ⟨c, hc, -, hcj⟩ := exists_child_of_mem_chain hup hne
          have hcs := Nat.lt_of_le_of_lt (le_of_mem_chain hcj) hj
          refine .inr ⟨c, h.mem_children_iff.mpr ⟨hcs, hc⟩, ?_⟩
          rw [List.mem_filter, List.mem_range, decide_eq_true_iff]
          exact ⟨hj, hcj⟩

end BlockTree

end Formwork
