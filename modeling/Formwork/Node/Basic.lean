import Formwork.Location

namespace Formwork

/-!
# Nodes

A document is a list of nodes: atoms, comments, and bracketed groups of nodes. Comments may stand
anywhere, so the accessors of a group that speak of its head and its arguments look past them.

Two nodes are the *same* when they agree in shape, values, brackets and comment texts, wherever
they were written and whether or not an atom was quoted.
-/

/-- The two bracket pairs. They mean the same, but each closes only its own partner. -/
inductive Delim where
  /-- Round brackets. -/
  | paren
  /-- Square brackets. -/
  | bracket
  deriving DecidableEq, Repr, Inhabited

namespace Delim

/-- The bracket that opens a group. -/
def opening : Delim → Char
  | .paren => '('
  | .bracket => '['

/-- The bracket that closes a group. -/
def closing : Delim → Char
  | .paren => ')'
  | .bracket => ']'

/-- The pair whose opening bracket is `c`. -/
def ofOpening? (c : Char) : Option Delim :=
  if c = '(' then some .paren else if c = '[' then some .bracket else none

/-- The pair whose closing bracket is `c`. -/
def ofClosing? (c : Char) : Option Delim :=
  if c = ')' then some .paren else if c = ']' then some .bracket else none

end Delim

/-! ### The tree -/

/-- A leaf with a value. `quoted` says that it is printed in quotes. -/
structure Atom where
  value : String
  quoted : Bool
  location : Location
  deriving DecidableEq, Repr, Inhabited

/-- A comment, without its semicolon and its line end. -/
structure Comment where
  text : String
  location : Location
  deriving DecidableEq, Repr, Inhabited

/-- A located tree. A group has the locations of both of its brackets. -/
inductive Node where
  | atom (atom : Atom)
  | comment (comment : Comment)
  | group (delim : Delim) (children : List Node) (location stop : Location)
  deriving Repr, Inhabited

/-! ### Reading atoms -/

namespace Atom

/-- The name of a keyword: an unquoted atom `name:`. -/
def keyword? (a : Atom) : Option String :=
  if a.quoted then
    none
  else
    match a.value.toList.reverse with
    | ':' :: c :: cs => some (String.ofList (c :: cs).reverse)
    | _ => none

/-- What follows `mark` in a value that starts with `mark` and is longer than it. -/
def named? (mark : Char) (value : String) : Option String :=
  match value.toList with
  | [] => none
  | c :: cs => if c = mark ∧ cs ≠ [] then some (String.ofList cs) else none

/-- The name of a placeholder: an atom `@name`. -/
def placeholder? (a : Atom) : Option String := named? '@' a.value

/-- The identifier that a reference names: an atom `#id`. -/
def reference? (a : Atom) : Option String := named? '#' a.value

/-- A value that is a mark and a name, seen as characters. -/
theorem eq_mark_append_iff (mark : Char) {value name : String} :
    value = String.singleton mark ++ name ↔ value.toList = mark :: name.toList := by
  rw [← String.toList_inj, String.toList_append, String.toList_singleton, List.singleton_append]

/-- A name is read where the mark and the name are written, and nowhere else. The name may start
    with the mark, but it is not empty. -/
theorem named?_eq_some_iff {mark : Char} {value name : String} :
    named? mark value = some name ↔ value.toList = mark :: name.toList ∧ name ≠ "" := by
  have hname : name ≠ "" ↔ name.toList ≠ [] := by
    rw [Ne, Ne, ← String.toList_inj]
    rfl
  rw [hname]
  unfold named?
  split
  case h_1 hnil => simp [hnil]
  case h_2 c cs hcs =>
    rw [hcs, List.cons.injEq]
    split
    case isTrue h =>
      rw [Option.some_inj, ← String.toList_inj, String.toList_ofList]
      constructor
      · rintro rfl
        exact ⟨⟨h.1, rfl⟩, h.2⟩
      · exact fun hsplit => hsplit.1.2
    case isFalse h =>
      simp only [reduceCtorEq, false_iff, not_and]
      rintro ⟨hmark, rfl⟩ hne
      exact h ⟨hmark, hne⟩

/-- The placeholder with a name is written `@name`. -/
theorem placeholder?_eq_some_iff {a : Atom} {name : String} :
    a.placeholder? = some name ↔ a.value = "@" ++ name ∧ name ≠ "" := by
  rw [placeholder?, named?_eq_some_iff, ← eq_mark_append_iff]
  rfl

/-- The reference to an identifier is written `#id`, in quotes or not. An atom `#` alone refers to
    nothing. -/
theorem reference?_eq_some_iff {a : Atom} {id : String} :
    a.reference? = some id ↔ a.value = "#" ++ id ∧ id ≠ "" := by
  rw [reference?, named?_eq_some_iff, ← eq_mark_append_iff]
  rfl

end Atom

/-! ### Reading nodes -/

namespace Node

/-- Where the node starts. -/
def location : Node → Location
  | atom a => a.location
  | comment c => c.location
  | group _ _ l _ => l

/-- The atom, if the node is one. -/
def atom? : Node → Option Atom
  | atom a => some a
  | _ => none

/-- Whether the node is a comment. -/
def isComment : Node → Bool
  | comment _ => true
  | _ => false

/-- Whether the node is a group. -/
def isGroup : Node → Bool
  | group .. => true
  | _ => false

/-- The nodes directly inside a group. -/
def children : Node → List Node
  | group _ cs _ _ => cs
  | _ => []

/-- The children that are not comments. -/
def exprs (n : Node) : List Node := n.children.filter fun c => !c.isComment

/-- The first child that is not a comment. -/
def head? (n : Node) : Option Node := n.exprs.head?

/-- The value of the head, if it is an atom. -/
def headName? (n : Node) : Option String := n.head?.bind fun h => h.atom?.map Atom.value

/-- The children after the head, without comments. -/
def tail (n : Node) : List Node := n.exprs.drop 1

/-- The keyword name of a node that is a keyword atom. -/
def keyword? (n : Node) : Option String := n.atom?.bind Atom.keyword?

/-- The name of a node that is a placeholder atom. -/
def placeholder? (n : Node) : Option String := n.atom?.bind Atom.placeholder?

/-! ### Walking -/

mutual

/-- The node and everything below it, outermost and leftmost first. The children of a node are left
    out unless `descend` holds of it. -/
def walk (descend : Node → Bool) : Node → List Node
  | atom a => [atom a]
  | comment c => [comment c]
  | group d cs l s =>
    group d cs l s :: if descend (group d cs l s) then walkAll descend cs else []

/-- The walks of a list of nodes, one after another. -/
def walkAll (descend : Node → Bool) : List Node → List Node
  | [] => []
  | n :: ns => walk descend n ++ walkAll descend ns

end

/-- The node and everything below it. -/
def preorder (n : Node) : List Node := n.walk fun _ => true

/-! ### Sameness -/

mutual

/-- Whether two nodes agree in shape, values, brackets and comment texts. -/
def same : Node → Node → Bool
  | atom a, atom b => a.value = b.value
  | comment a, comment b => a.text = b.text
  | group d cs _ _, group d' cs' _ _ => d = d' && sameAll cs cs'
  | _, _ => false

/-- Whether two lists of nodes are the same, node by node. -/
def sameAll : List Node → List Node → Bool
  | [], [] => true
  | n :: ns, m :: ms => same n m && sameAll ns ms
  | _, _ => false

end

/-! ### Induction -/

/-- To prove something of every node, prove it of atoms and comments, and of a group from its
    children. -/
@[elab_as_elim]
theorem induct {motive : Node → Prop} (atom : ∀ a, motive (.atom a))
    (comment : ∀ c, motive (.comment c))
    (group : ∀ d cs l s, (∀ n ∈ cs, motive n) → motive (.group d cs l s)) (n : Node) :
    motive n :=
  Node.rec (motive_1 := motive) (motive_2 := fun ns => ∀ n ∈ ns, motive n) atom comment group
    (by simp) (fun _ _ hn hns => by simpa using ⟨hn, hns⟩) n

theorem walkAll_eq_flatMap (descend : Node → Bool) (ns : List Node) :
    walkAll descend ns = ns.flatMap (walk descend) := by
  induction ns with
  | nil => rfl
  | cons n ns ih => simp [walkAll, ih]

theorem preorder_group (d : Delim) (cs : List Node) (l stop : Location) :
    (group d cs l stop).preorder = .group d cs l stop :: cs.flatMap preorder := by
  rw [preorder, walk, if_pos rfl, walkAll_eq_flatMap]
  rfl

theorem same_refl (n : Node) : same n n = true := by
  induction n using induct with
  | atom a => simp [same]
  | comment c => simp [same]
  | group d cs l s ih =>
    have h : sameAll cs cs = true := by
      induction cs with
      | nil => rfl
      | cons c cs ihs =>
        simp only [sameAll, Bool.and_eq_true]
        exact ⟨ih c (by simp), ihs fun n hn => ih n (by simp [hn])⟩
    simp [same, h]

end Node

end Formwork
