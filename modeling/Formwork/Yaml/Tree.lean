import Formwork.Yaml.Token

namespace Formwork.Yaml

/-!
# YAML trees

The value that a document describes. An anchor gives a value a number, and an alias with that number
stands for the value. Several values can have one number, and then the last of them counts, also for
an alias that comes before it.
-/

/-- A value. -/
inductive Tree where
  | scalar (text : String) (style : ScalarStyle) (tag : Option Octets)
  | sequence (values : List Tree)
  | mapping (entries : List (Tree × Tree))
  | anchored (number : Nat) (value : Tree)
  | alias (number : Nat)
  deriving Repr, Inhabited

namespace Tree

/-- The value of a place where nothing is written. -/
def nothing (tag : Option Octets) : Tree := scalar "" .plain tag

mutual

/-- The anchored values with their numbers, in the order in which they start. -/
def anchors : Tree → List (Nat × Tree)
  | scalar _ _ _ => []
  | sequence vs => anchorsInValues vs
  | mapping es => anchorsInEntries es
  | anchored n v => (n, v) :: anchors v
  | .alias _ => []

/-- The anchored values in the values of a sequence. -/
def anchorsInValues : List Tree → List (Nat × Tree)
  | [] => []
  | v :: vs => anchors v ++ anchorsInValues vs

/-- The anchored values in the entries of a mapping. -/
def anchorsInEntries : List (Tree × Tree) → List (Nat × Tree)
  | [] => []
  | (k, v) :: es => anchors k ++ anchors v ++ anchorsInEntries es

end

mutual

/-- The number of parts: a scalar or an alias is one, and a collection has two besides its
    values. -/
def size : Tree → Nat
  | scalar _ _ _ => 1
  | sequence vs => 2 + sizeOfValues vs
  | mapping es => 2 + sizeOfEntries es
  | anchored _ v => size v
  | .alias _ => 1

/-- The number of parts of the values of a sequence. -/
def sizeOfValues : List Tree → Nat
  | [] => 0
  | v :: vs => size v + sizeOfValues vs

/-- The number of parts of the entries of a mapping. -/
def sizeOfEntries : List (Tree × Tree) → Nat
  | [] => 0
  | (k, v) :: es => size k + size v + sizeOfEntries es

end

/-- What the aliases of a document stand for; the first entry of a number counts. -/
def targets (v : Tree) : List (Nat × Tree) := (anchors v).reverse

end Tree

end Formwork.Yaml
