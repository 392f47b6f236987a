import Formwork.Expander
import Formwork.References
import Formwork.Scan

namespace Formwork

/-!
# Options

How documents are expanded and checked. Every option has a default.
-/

/-- The options. The scopes are in the order of their heads, each head once. -/
structure Options where
  /-- The number of invocations that may be expanded one inside another's expansion. -/
  maxExpansionDepth : Nat := Expander.defaultMaxDepth
  /-- The number of groups that may be open at once in a document. -/
  maxNestingDepth : Nat := Source.defaultLimit
  keepComments : Bool := true
  /-- Whether the built-in rules are there. -/
  builtinRules : Bool := true
  /-- The directory that includes are looked up in, instead of the document's own. -/
  includeRoot : Option String := none
  scopes : Scopes := []
  deriving DecidableEq, Repr

namespace Options

/-- Sets the kinds that a scope takes. -/
def putScope (head : String) (kinds : List String) : Scopes → Scopes
  | [] => [(head, kinds)]
  | (h, ks) :: rest =>
    if head < h then (head, kinds) :: (h, ks) :: rest
    else if head = h then (head, kinds) :: rest
    else (h, ks) :: putScope head kinds rest

/-- The options with the kinds of one scope set. -/
def withScope (o : Options) (head : String) (kinds : List String) : Options :=
  { o with scopes := putScope head kinds o.scopes }

/-- Scopes from pairs, the last of which counts for each head. -/
def scopesOfPairs (pairs : List (String × List String)) : Scopes :=
  pairs.foldl (fun scopes pair => putScope pair.1 pair.2 scopes) []

end Options

end Formwork
