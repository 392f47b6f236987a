import Formwork.Resolver

namespace Formwork

/-!
# The tree of blocks

Resolving once more, with each thing kept where it belongs. Blocks are known by their places in a
table. A block has its definitions and what waits in it, both by identifier, and it knows the block
around it and those directly in it. A closed block stays in the table until the outermost one
closes, since what waits in it may still be met.

Each requirement has a number, counted over the whole life of the tree. What fails is gathered from
the maps of all blocks in whatever order they list it, and put in order by these numbers.
-/

/-- A map of identifiers. The order of its pairs means nothing. -/
structure IdMap (α : Type) where
  pairs : List (String × α) := []
  nodup : (pairs.map Prod.fst).Nodup := by simp

namespace IdMap

variable {α : Type}

/-- What the map has for an identifier. -/
def get? (m : IdMap α) (id : String) : Option α := m.pairs.lookup id

/-- The map without an identifier. -/
def remove (m : IdMap α) (id : String) : IdMap α where
  pairs := m.pairs.filter fun p => p.1 ≠ id
  nodup := (List.filter_sublist.map Prod.fst).nodup m.nodup

/-- The map with something else for an identifier. -/
def put (m : IdMap α) (id : String) (a : α) : IdMap α where
  pairs := (id, a) :: (m.remove id).pairs
  nodup := by
    refine List.nodup_cons.mpr ⟨?_, (m.remove id).nodup⟩
    simp [remove]

/-- Everything that the map has. -/
def values (m : IdMap α) : List α := m.pairs.map Prod.snd

theorem lookup_cons (name id : String) (a : α) (ps : List (String × α)) :
    ((name, a) :: ps).lookup id = if id = name then some a else ps.lookup id := by
  rw [List.lookup_cons]
  by_cases hname : id = name
  · simp [hname]
  · rw [beq_false_of_ne hname, if_neg hname]

@[simp]
theorem get?_remove (m : IdMap α) (id other : String) :
    (m.remove id).get? other = if other = id then none else m.get? other := by
  show (m.pairs.filter fun p => p.1 ≠ id).lookup other = if _ then _ else m.pairs.lookup other
  induction m.pairs with
  | nil => simp
  | cons p ps ih =>
    obtain ⟨name, a⟩ := p
    rw [List.filter_cons, lookup_cons]
    by_cases hname : name = id
    · rw [if_neg (by simpa using hname), ih]
      by_cases hother : other = id
      · rw [if_pos hother, if_pos hother]
      · rw [if_neg hother, if_neg hother, if_neg (hname ▸ hother)]
    · rw [if_pos (by simpa using hname), lookup_cons, ih]
      by_cases hother : other = name
      · rw [if_pos hother, if_pos hother, if_neg (hother ▸ hname)]
      · rw [if_neg hother, if_neg hother]

@[simp]
theorem get?_put (m : IdMap α) (id other : String) (a : α) :
    (m.put id a).get? other = if other = id then some a else m.get? other := by
  have hcons : (m.put id a).get? other = if other = id then some a else (m.remove id).get? other :=
    lookup_cons id other a (m.remove id).pairs
  rw [hcons, get?_remove]
  by_cases hother : other = id
  · rw [if_pos hother, if_pos hother]
  · rw [if_neg hother, if_neg hother, if_neg hother]

/-- The pairs of a map are what it has. -/
theorem mem_pairs_iff (m : IdMap α) (id : String) (a : α) :
    (id, a) ∈ m.pairs ↔ m.get? id = some a := by
  unfold get?
  have hnodup := m.nodup
  generalize m.pairs = pairs at hnodup
  induction pairs with
  | nil => simp
  | cons p ps ih =>
    obtain ⟨name, b⟩ := p
    obtain ⟨hnew, hnodup⟩ := List.nodup_cons.mp hnodup
    have hrest : (id, a) ∈ ps ↔ ps.lookup id = some a := ih hnodup
    rw [List.mem_cons, hrest, lookup_cons]
    by_cases hname : id = name
    · subst hname
      have hnone : ps.lookup id ≠ some a := by
        rw [ne_eq, ← hrest]
        exact fun hmem => hnew (List.mem_map.mpr ⟨(id, a), hmem, rfl⟩)
      simp [hnone, eq_comm]
    · simp [hname]

end IdMap

variable {κ ν τ : Type}

namespace BlockTree

/-- A definition, as its block keeps it. -/
structure Entry (κ ν : Type) where
  kind : κ
  value : ν
  origin : Node

/-- A requirement, as its block keeps it. `sequence` is its number. -/
structure Demand (κ τ : Type) where
  sequence : Nat
  id : String
  kind : κ
  origin : Node
  tag : τ

/-- A block: the block around it, those directly in it, the kinds of definitions that it takes, and
    its definitions and what waits in it, by identifier. -/
structure Scope (κ ν τ : Type) where
  parent : Option Nat
  children : List Nat := []
  kinds : List κ
  definitions : IdMap (Entry κ ν) := {}
  outstanding : IdMap (List (Demand κ τ)) := {}

end BlockTree

/-- The state of resolving, as a tree of blocks. -/
structure BlockTree (κ ν τ : Type) where
  /-- The blocks, open and closed, each after the one around it. -/
  blocks : Array (BlockTree.Scope κ ν τ) := #[]
  /-- The places of the open blocks, innermost first. -/
  stack : List Nat := []
  /-- The number of the next requirement. -/
  sequence : Nat := 0

namespace BlockTree

/-- A tree with no block. -/
def empty : BlockTree κ ν τ := {}

/-- The number of open blocks. -/
def depth (t : BlockTree κ ν τ) : Nat := t.stack.length

/-- The block around a block. -/
def parent? (t : BlockTree κ ν τ) (i : Nat) : Option Nat := t.blocks[i]?.bind Scope.parent

/-- The blocks directly in a block. -/
def children (t : BlockTree κ ν τ) (i : Nat) : List Nat := t.blocks[i]?.elim [] Scope.children

/-- The kinds of definitions that a block takes. -/
def kindsOf (t : BlockTree κ ν τ) (i : Nat) : List κ := t.blocks[i]?.elim [] Scope.kinds

/-- The definition of an identifier in a block. -/
def definition? (t : BlockTree κ ν τ) (id : String) (i : Nat) : Option (Entry κ ν) :=
  t.blocks[i]?.bind fun b => b.definitions.get? id

/-- What waits in a block for an identifier, in the order it was required. -/
def waitingFor (t : BlockTree κ ν τ) (i : Nat) (id : String) : List (Demand κ τ) :=
  (t.blocks[i]?.bind fun b => b.outstanding.get? id).getD []

/-- Everything that waits in a block. -/
def outstanding (t : BlockTree κ ν τ) (i : Nat) : List (Demand κ τ) :=
  t.blocks[i]?.elim [] fun b => b.outstanding.values.flatten

/-- Changes a block. -/
def update (t : BlockTree κ ν τ) (i : Nat) (f : Scope κ ν τ → Scope κ ν τ) : BlockTree κ ν τ :=
  { t with blocks := t.blocks.modify i f }

/-! ### Ways through the tree -/

/-- A block and those around it, innermost first. -/
def chain (t : BlockTree κ ν τ) (i : Nat) : List Nat :=
  i ::
    match t.parent? i with
    | some p => if p < i then t.chain p else []
    | none => []
termination_by i

/-- The open blocks, innermost first. -/
def here (t : BlockTree κ ν τ) : List Nat := t.stack.head?.elim [] t.chain

/-- A block and those in it, each before the blocks in it. -/
def subtree (t : BlockTree κ ν τ) (i : Nat) : List Nat :=
  i :: (t.children i).flatMap fun j =>
    if i < j ∧ j < t.blocks.size then t.subtree j else []
termination_by t.blocks.size - i

/-- The nearest definition, from a block outwards, that meets a kind. -/
def lookup [Kind κ] (t : BlockTree κ ν τ) (i : Nat) (id : String) (kind : κ) : Option ν :=
  (((t.chain i).filterMap (t.definition? id)).find? fun e => Kind.accepts kind e.kind).map
    Entry.value

/-- The kind of the nearest definition from a block outwards. -/
def nearMiss (t : BlockTree κ ν τ) (i : Nat) (id : String) : Option κ :=
  ((t.chain i).findSome? (t.definition? id)).map Entry.kind

/-- The value that an identifier has here for a kind. -/
def find? [Kind κ] (t : BlockTree κ ν τ) (id : String) (kind : κ) : Option ν :=
  t.stack.head?.bind fun top => t.lookup top id kind

/-! ### Blocks -/

/-- Opens a block that takes definitions of the given kinds. -/
def push (t : BlockTree κ ν τ) (kinds : List κ) : BlockTree κ ν τ :=
  let i := t.blocks.size
  let adopt (b : Scope κ ν τ) : Scope κ ν τ := { b with children := b.children ++ [i] }
  let t' := t.stack.head?.elim t fun top => t.update top adopt
  { t' with blocks := t'.blocks.push { parent := t.stack.head?, kinds }, stack := i :: t.stack }

/-- The failure of a requirement, with the kind of what was found instead. -/
def Demand.failure [Kind κ] (d : Demand κ τ) (found : Option κ) : Outcome ν τ where
  tag := d.tag
  result := .error
    { id := d.id, origin := d.origin, expected := Kind.text d.kind, found := found.map Kind.text }

/-- Some order in which things are gathered. -/
structure Gathering (α : Type) where
  order : List α → List α
  perm : ∀ l, (order l).Perm l

/-- The order in which things are listed. -/
def Gathering.listed {α : Type} : Gathering α := ⟨id, fun l => .refl l⟩

/-- The order opposite to it. -/
def Gathering.reversed {α : Type} : Gathering α := ⟨List.reverse, List.reverse_perm⟩

/-- Everything that waits in a block and those in it, with the kind of what was found instead. -/
def unmet (t : BlockTree κ ν τ) (i : Nat) : List (Demand κ τ × Option κ) :=
  (t.subtree i).flatMap fun j => (t.outstanding j).map fun d => (d, t.nearMiss j d.id)

/-- Closes the innermost block. When it is the outermost one, everything that waits fails, in the
    order it was required, and the table is emptied. -/
def pop [Kind κ] (g : Gathering (Demand κ τ × Option κ)) (t : BlockTree κ ν τ) :
    BlockTree κ ν τ × List (Outcome ν τ) :=
  match t.stack with
  | [] => (t, [])
  | [top] =>
    let inOrder := (g.order (t.unmet top)).mergeSort fun p q => p.1.sequence ≤ q.1.sequence
    ({ t with blocks := #[], stack := [] }, inOrder.map fun p => p.1.failure p.2)
  | _ :: stack => ({ t with stack }, [])

/-! ### Requirements and definitions -/

/-- Lets a requirement wait in a block. -/
def await (t : BlockTree κ ν τ) (i : Nat) (d : Demand κ τ) : BlockTree κ ν τ :=
  t.update i fun b =>
    { b with outstanding := b.outstanding.put d.id ((b.outstanding.get? d.id).getD [] ++ [d]) }

/-- Requires an identifier as a kind: decided now if it is visible or if no block is open, and
    waiting in the innermost block otherwise. -/
def resolve [Kind κ] (t : BlockTree κ ν τ) (origin : Node) (id : String) (kind : κ) (tag : τ) :
    BlockTree κ ν τ × List (Outcome ν τ) :=
  let d : Demand κ τ := { sequence := t.sequence, id, kind, origin, tag }
  let t := { t with sequence := t.sequence + 1 }
  match t.stack.head? with
  | none => (t, [d.failure none])
  | some top =>
    match t.lookup top id kind with
    | some value => (t, [{ tag, result := .ok value }])
    | none => (t.await top d, [])

/-- The nearest open block that takes definitions of a kind. -/
def accepting? [Kind κ] (t : BlockTree κ ν τ) (kind : κ) : Option Nat :=
  t.here.find? fun i => (t.kindsOf i).any fun k => Kind.accepts k kind

/-- Puts a definition into a block. -/
def enter (t : BlockTree κ ν τ) (i : Nat) (id : String) (e : Entry κ ν) : BlockTree κ ν τ :=
  t.update i fun b => { b with definitions := b.definitions.put id e }

/-- What a requirement in a block becomes when its identifier has just been defined: its outcome if
    it is met now. -/
def met? [Kind κ] (t : BlockTree κ ν τ) (id : String) (i : Nat) (d : Demand κ τ) :
    Option (Outcome ν τ) :=
  (t.lookup i id d.kind).map fun value => { tag := d.tag, result := .ok value }

/-- Decides what waits in a block for an identifier and can be met now. -/
def retryIn [Kind κ] (t : BlockTree κ ν τ) (id : String) (i : Nat) :
    BlockTree κ ν τ × List (Outcome ν τ) :=
  let waiting := t.waitingFor i id
  let still := waiting.filter fun d => (t.met? id i d).isNone
  let kept (m : IdMap (List (Demand κ τ))) :=
    if still.isEmpty then m.remove id else m.put id still
  (t.update i fun b => { b with outstanding := kept b.outstanding },
    waiting.filterMap (t.met? id i))

/-- Goes through some blocks and decides what waits there for an identifier and can be met now. -/
def retry [Kind κ] (t : BlockTree κ ν τ) (id : String) :
    List Nat → BlockTree κ ν τ × List (Outcome ν τ)
  | [] => (t, [])
  | i :: is =>
    let (t, first) := t.retryIn id i
    let (t, rest) := t.retry id is
    (t, first ++ rest)

/-- What a definition leads to: the new state and the requirements decided, or a report of why it is
    not made. -/
def define [Kind κ] (t : BlockTree κ ν τ) (origin : Node) (id : String) (kind : κ) (value : ν) :
    Except Report (BlockTree κ ν τ × List (Outcome ν τ)) :=
  match t.accepting? kind with
  | none => .error (.atNode (.noAcceptingScope id (Kind.text kind)) origin)
  | some i =>
    match t.definition? id i with
    | some first => .error { problem := .duplicateDefinition id, nodes := [origin, first.origin] }
    | none =>
      let t := t.enter i id { kind, value, origin }
      .ok (t.retry id (t.subtree i))

end BlockTree

end Formwork
