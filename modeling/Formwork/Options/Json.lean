import Formwork.Json
import Formwork.Options.Basic

namespace Formwork.Options

/-!
# Options as JSON

Options are written with all their fields. They are read from an object with any of the fields;
what is left out takes its default, and a field that is no option is an error.
-/

/-- Options as JSON. -/
def toJson (o : Options) : Json :=
  .object
    [("max_expansion_depth", .number o.maxExpansionDepth),
      ("max_nesting_depth", .number o.maxNestingDepth), ("keep_comments", .bool o.keepComments),
      ("builtin_macros", .bool o.builtinRules),
      ("include_root", (o.includeRoot.map Json.text).getD .null),
      ("scopes", .object (o.scopes.map fun (head, kinds) => (head, .list (kinds.map .text))))]

/-- A text, or none for `null`. -/
def optionalText? : Json → Option (Option String)
  | .null => some none
  | j => j.text?.map some

/-- The scopes that an object stands for. -/
def scopesOfJson? (j : Json) : Option Scopes := do
  let pairs ← (← j.object?).mapM fun (head, kinds) => do
    return (head, ← (← kinds.list?).mapM Json.text?)
  return scopesOfPairs pairs

/-- The options with one field set. -/
def setField? (o : Options) (name : String) (j : Json) : Option Options :=
  match name with
  | "max_expansion_depth" => j.count?.map fun n => { o with maxExpansionDepth := n }
  | "max_nesting_depth" => j.count?.map fun n => { o with maxNestingDepth := n }
  | "keep_comments" => j.bool?.map fun b => { o with keepComments := b }
  | "builtin_macros" => j.bool?.map fun b => { o with builtinRules := b }
  | "include_root" => (optionalText? j).map fun root => { o with includeRoot := root }
  | "scopes" => (scopesOfJson? j).map fun scopes => { o with scopes }
  | _ => none

/-- The options that an object with distinct fields stands for. -/
def ofJson? (j : Json) : Option Options := do
  (← j.object?).foldlM (fun o (name, value) => o.setField? name value) {}

end Formwork.Options
