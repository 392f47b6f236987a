import Formwork.Options.Basic
import Formwork.Text.Blank
import Formwork.Text.Numeral
import Formwork.Yaml.Document

namespace Formwork.Options

/-!
# Options from YAML

Options are read from a mapping with any of the fields; what is left out takes its default. An
unknown field or a field that is given twice is an error. A text without a value gives the defaults.
Aliases are followed while the options are read, and only so many times for a text of some size.
-/

open Yaml (Tree Octets octets coreTag)

/-! ### Values -/

/-- The text of a scalar that can write a value other than a text: a plain scalar, or a literal
    block that is tagged with the kind of the value. -/
def valueText? (kind : String) : Tree → Option String
  | .scalar text .plain _ => some text
  | .scalar text .literal tag =>
    if tag = some (coreTag ++ octets kind) then some text else none
  | _ => none

/-- The flag that a scalar writes. -/
def flag? (v : Tree) : Option Bool :=
  (valueText? "bool" v).bind fun s =>
    if s ∈ ["true", "True", "TRUE"] then some true
    else if s ∈ ["false", "False", "FALSE"] then some false
    else none

/-- The value of a digit in any of the bases. -/
def digitValue? (base : Nat) (c : Char) : Option Nat :=
  let n :=
    if c.isDigit then c.toNat - '0'.toNat
    else if 'a' ≤ c && c ≤ 'f' then c.toNat - 'a'.toNat + 10
    else if 'A' ≤ c && c ≤ 'F' then c.toNat - 'A'.toNat + 10
    else base
  if n < base then some n else none

/-- The count that digits of a base write. -/
def digitsIn? (base : Nat) (cs : List Char) : Option Nat :=
  if cs.isEmpty then
    none
  else
    (cs.foldlM (fun n c => (digitValue? base c).map (base * n + ·)) 0).filter (· < Text.countBound)

/-- The count that characters without a sign write: in base 16, 8 or 2 behind `0x`, `0o` or `0b`,
    and else in base 10 without leading zeros. -/
def countChars? : List Char → Option Nat
  | '0' :: 'x' :: cs => digitsIn? 16 cs
  | '0' :: 'o' :: cs => digitsIn? 8 cs
  | '0' :: 'b' :: cs => digitsIn? 2 cs
  | ['0'] => some 0
  | '0' :: _ => none
  | cs => digitsIn? 10 cs

/-- The count that a scalar writes. -/
def count? (v : Tree) : Option Nat :=
  (valueText? "int" v).bind fun s =>
    match s.toList with
    | '+' :: cs => countChars? cs
    | cs => countChars? cs

/-- The text of a scalar. -/
def text? : Tree → Option String
  | .scalar text _ _ => some text
  | _ => none

/-- Whether a plain scalar writes that there is no value. -/
def isNull (s : String) : Bool := s ∈ ["null", "Null", "NULL", "~"]

/-- The text of a scalar, or none if it is plain and writes that there is no value. -/
def textOrNull? : Tree → Option (Option String)
  | .scalar text .plain tag =>
    if tag = some (coreTag ++ octets "null") then
      if isNull text then some none else none
    else if tag.isSome then some (some text)
    else if text.isEmpty || isNull text then some none
    else some (some text)
  | .scalar text _ _ => some (some text)
  | _ => none

/-- The values of a sequence. -/
def list? : Tree → Option (List Tree)
  | .sequence vs => some vs
  | .scalar "" .plain _ => some []
  | _ => none

/-- The entries of a mapping. -/
def entries? : Tree → Option (List (Tree × Tree))
  | .mapping es => some es
  | .scalar "" .plain _ => some []
  | _ => none

/-! ### Fields -/

/-- Reading a part of the options. It is known what aliases stand for, and the state is the number
    of times that an alias may still be followed. -/
abbrev Decode := ReaderT (List (Nat × Tree)) (StateT Nat Option)

/-- The value in a place: the one that is written there or the one that an alias stands for. -/
def follow : Tree → Decode Tree
  | .anchored _ v => pure v
  | .alias n => fun targets left =>
    match left with
    | 0 => none
    | left + 1 => (targets.lookup n).map fun v => (v, left)
  | v => pure v

/-- The text in a place. -/
def decodeText (v : Tree) : Decode String := do text? (← follow v)

/-- The scopes that a mapping stands for. -/
def decodeScopes (v : Tree) : Decode Scopes := do
  let pairs ← (← entries? (← follow v)).mapM fun (head, kinds) => do
    return (← decodeText head, ← (← list? (← follow kinds)).mapM decodeText)
  return scopesOfPairs pairs

/-- The options with one field set. -/
def decodeField (o : Options) (name : String) (v : Tree) : Decode Options := do
  let v ← follow v
  match name with
  | "max_expansion_depth" => return { o with maxExpansionDepth := ← count? v }
  | "max_nesting_depth" => return { o with maxNestingDepth := ← count? v }
  | "keep_comments" => return { o with keepComments := ← flag? v }
  | "builtin_macros" => return { o with builtinRules := ← flag? v }
  | "include_root" => return { o with includeRoot := ← textOrNull? v }
  | "scopes" => return { o with scopes := ← decodeScopes v }
  | _ => failure

/-- The options that a mapping stands for. -/
def decodeOptions (v : Tree) : Decode Options := do
  let fields ← (← entries? (← follow v)).mapM fun (name, v) => do return (← decodeText name, v)
  if (fields.map Prod.fst).Nodup then
    fields.foldlM (fun o (name, v) => decodeField o name v) {}
  else
    failure

/-- The number of times that aliases may be followed for each part of a document. -/
def followsPerPart : Nat := 100

/-- The options that a document stands for. -/
def ofTree? (v : Tree) : Option Options :=
  ((decodeOptions v).run v.targets).run' (followsPerPart * v.size)

/-- The options that a text writes. -/
def ofYaml? (text : String) : Option Options :=
  if (Text.trim text.toList).isEmpty then
    some {}
  else
    (Tree.ofText? text).bind fun v => (v.map ofTree?).getD (some {})

end Formwork.Options
