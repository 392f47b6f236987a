import Formwork.Report

namespace Formwork

/-!
# Resolving identifiers

Definitions and requirements of identifiers, in nested blocks. A requirement is met by the nearest
definition of its identifier and a fitting kind, in its own block or one around it. When there is
none yet it waits, in a closed block too, for a definition that comes later; when the outermost
block closes, what still waits fails.

A definition goes to the nearest block that accepts its kind. Blocks are numbered as they open, so
the number of a block is also its place among the blocks of the document.
-/

variable {κ ν τ : Type}

/-- Kinds of definitions and requirements. -/
class Kind (κ : Type) where
  /-- Whether a definition of kind `given` meets a requirement of kind `wanted`. -/
  accepts (wanted given : κ) : Bool
  /-- The word for a kind. -/
  text : κ → String

/-- An open block: its number and the kinds of definitions that it takes. -/
structure Block (κ : Type) where
  number : Nat
  kinds : List κ

/-- A definition, in the block with a number. -/
structure Definition (κ ν : Type) where
  block : Nat
  id : String
  kind : κ
  value : ν
  origin : Node

/-- A requirement that waits. `path` has the numbers of the blocks around it, innermost first, and
    `tag` stands for what goes on when it is decided. -/
structure Requirement (κ τ : Type) where
  path : List Nat
  id : String
  kind : κ
  origin : Node
  tag : τ

/-- The number of the block that a requirement was made in. -/
def Requirement.block (q : Requirement κ τ) : Nat := q.path.headD 0

/-- Why a requirement failed. `found` is the kind of the nearest definition of the identifier. -/
structure Unresolved where
  id : String
  origin : Node
  expected : String
  found : Option String

namespace Unresolved

/-- The sentence that says that a requirement failed. -/
def message (u : Unresolved) : String := s!"unresolved identifier #{u.id}"

/-- The report of a failed requirement, at the node that made it. -/
def report (u : Unresolved) : Report :=
  match u.found with
  | some found => .atNode (.kindMismatch u.id u.expected found) u.origin
  | none => .atNode (.unresolvedIdentifier u.id) u.origin

end Unresolved

/-- A requirement that has been decided. -/
structure Outcome (ν τ : Type) where
  tag : τ
  result : Except Unresolved ν

/-- The state of resolving. -/
structure Resolver (κ ν τ : Type) where
  /-- The open blocks, innermost first. -/
  blocks : List (Block κ) := []
  /-- The number of the next block. -/
  next : Nat := 0
  /-- The definitions, in the order they were made. -/
  definitions : List (Definition κ ν) := []
  /-- The requirements that wait, in the order they were made. -/
  waiting : List (Requirement κ τ) := []

namespace Resolver

/-- A resolver with no block open. -/
def empty : Resolver κ ν τ := {}

/-- The number of open blocks. -/
def depth (r : Resolver κ ν τ) : Nat := r.blocks.length

/-- The numbers of the open blocks, innermost first. -/
def path (r : Resolver κ ν τ) : List Nat := r.blocks.map Block.number

/-- The definition of an identifier in a block. -/
def definition? (r : Resolver κ ν τ) (id : String) (block : Nat) : Option (Definition κ ν) :=
  r.definitions.find? fun d => d.block = block && d.id = id

/-- The definitions of an identifier along a path, innermost first. -/
def visible (r : Resolver κ ν τ) (path : List Nat) (id : String) : List (Definition κ ν) :=
  path.filterMap (r.definition? id)

/-- The nearest definition along a path that meets a kind. -/
def lookup [Kind κ] (r : Resolver κ ν τ) (path : List Nat) (id : String) (kind : κ) : Option ν :=
  ((r.visible path id).find? fun d => Kind.accepts kind d.kind).map Definition.value

/-- The value that an identifier has here for a kind. -/
def find? [Kind κ] (r : Resolver κ ν τ) (id : String) (kind : κ) : Option ν :=
  r.lookup r.path id kind

/-! ### Blocks -/

/-- Opens a block that takes definitions of the given kinds. -/
def push (r : Resolver κ ν τ) (kinds : List κ) : Resolver κ ν τ :=
  { r with blocks := { number := r.next, kinds } :: r.blocks, next := r.next + 1 }

/-- The failure of a requirement. -/
def failure [Kind κ] (r : Resolver κ ν τ) (q : Requirement κ τ) : Outcome ν τ where
  tag := q.tag
  result := .error
    { id := q.id, origin := q.origin, expected := Kind.text q.kind
      found := (r.visible q.path q.id).head?.map fun d => Kind.text d.kind }

/-- Closes the innermost block. When it is the outermost one, everything that waits fails, and the
    resolver starts afresh. -/
def pop [Kind κ] (r : Resolver κ ν τ) : Resolver κ ν τ × List (Outcome ν τ) :=
  match r.blocks with
  | [] => (r, [])
  | [_] => (empty, r.waiting.map r.failure)
  | _ :: blocks => ({ r with blocks }, [])

/-! ### Requirements and definitions -/

/-- Requires an identifier as a kind: decided now if it is visible or if no block is open, and
    waiting otherwise. -/
def resolve [Kind κ] (r : Resolver κ ν τ) (origin : Node) (id : String) (kind : κ) (tag : τ) :
    Resolver κ ν τ × List (Outcome ν τ) :=
  let q : Requirement κ τ := { path := r.path, id, kind, origin, tag }
  match r.find? id kind with
  | some value => (r, [{ tag, result := .ok value }])
  | none =>
    if r.blocks.isEmpty then (r, [r.failure q]) else ({ r with waiting := r.waiting ++ [q] }, [])

/-- The nearest block that takes definitions of a kind. -/
def accepting? [Kind κ] (r : Resolver κ ν τ) (kind : κ) : Option (Block κ) :=
  r.blocks.find? fun b => b.kinds.any fun k => Kind.accepts k kind

/-- What a requirement becomes when its identifier has just been defined in a block: its outcome if
    it is met now. -/
def met? [Kind κ] (r : Resolver κ ν τ) (id : String) (block : Nat) (q : Requirement κ τ) :
    Option (Outcome ν τ) :=
  if q.id = id && q.path.contains block then
    (r.lookup q.path q.id q.kind).map fun value => { tag := q.tag, result := .ok value }
  else
    none

/-- Decides the requirements that a definition in a block meets: by the order of their blocks, and
    in one block in the order they were made. -/
def wake [Kind κ] (r : Resolver κ ν τ) (id : String) (block : Nat) :
    Resolver κ ν τ × List (Outcome ν τ) :=
  let inBlockOrder := r.waiting.mergeSort fun p q => p.block ≤ q.block
  ({ r with waiting := r.waiting.filter fun q => (r.met? id block q).isNone },
    inBlockOrder.filterMap (r.met? id block))

/-- What a definition leads to: the new state, the requirements decided, or a report of why it is
    not made. -/
def define [Kind κ] (r : Resolver κ ν τ) (origin : Node) (id : String) (kind : κ) (value : ν) :
    Except Report (Resolver κ ν τ × List (Outcome ν τ)) :=
  match r.accepting? kind with
  | none => .error (.atNode (.noAcceptingScope id (Kind.text kind)) origin)
  | some block =>
    match r.definition? id block.number with
    | some first =>
      .error { problem := .duplicateDefinition id, nodes := [origin, first.origin] }
    | none =>
      let d : Definition κ ν := { block := block.number, id, kind, value, origin }
      .ok (wake { r with definitions := r.definitions ++ [d] } id block.number)

end Resolver

end Formwork
