import Formwork.Files.Access
import Formwork.Files.Path
import Formwork.Options.Yaml
import Formwork.Pipeline

namespace Formwork

/-!
# Documents in files

Expanding and checking a file, with includes looked up on disk, and reading options from a file.

A target is taken from the include root, which is the directory of the file unless the options say
otherwise, and the path that results is the name of the document. Documents are read when they are
asked for: processing is tried with the documents read so far until it asks for no other.
-/

open Files

/-! ### Options -/

/-- Why a file gives no options. -/
inductive OptionsFailure where
  | unreadable (path : String) (fault : Fault)
  | malformed (path : String)

/-- The sentence that says why a file gives no options. -/
def OptionsFailure.message : OptionsFailure → String
  | unreadable path fault => s!"cannot read config file {path}: {fault.text}"
  | malformed path => s!"invalid config file {path}"

namespace Options

/-- Reads options from a file. -/
def read (path : String) : Access (Except OptionsFailure Options) := do
  match ← Access.read path with
  | .error fault => return .error (.unreadable path fault)
  | .ok text =>
    match ofYaml? text with
    | some o => return .ok o
    | none => return .error (.malformed path)

/-! ### Documents -/

/-- The directory that the includes of a file are looked up in. -/
def rootOf (o : Options) (path : String) : String :=
  o.includeRoot.getD ((parent? path).getD ".")

/-- The documents with targets taken from a directory. -/
def documentsFrom (root : String) (files : String → Look) : Documents where
  identify form := (includeTarget form).map (join root)
  fetch id :=
    match textOf (files id) with
    | .ok text => .ok text
    | .error .notFound => .error (.notFound id)
    | .error fault => .error (.unreadable id fault.text)

/-- What was found at the paths looked at so far. -/
def known (seen : List (String × Look)) (path : String) : Look :=
  (seen.lookup path).getD (.error .notFound)

/-- Looks at paths, one after another. -/
def lookAll (seen : List (String × Look)) : List String → Access (List (String × Look))
  | [] => return seen
  | path :: paths => do lookAll ((path, ← Access.find path) :: seen) paths

/-- Tries to process documents from a directory, and looks at the paths that are asked for, until
    there is none that has not been looked at. Each round but the last looks at a new path. -/
def gather {α : Type} (root : String) (process : Documents → Option (α × List String)) :
    Nat → List (String × Look) → Access (Option α)
  | 0, _ => return none
  | rounds + 1, seen =>
    match process (documentsFrom root (known seen)) with
    | none => return none
    | some (a, consulted) =>
      match consulted.eraseDups.filter fun path => (seen.lookup path).isNone with
      | [] => return some a
      | paths => do gather root process rounds (← lookAll seen paths)

/-- Expands the text of a file and what it includes. -/
def expandText (o : Options) (path text : String) : Access (Option Processed) :=
  gather (o.rootOf path)
    (fun docs =>
      (o.expandWithIncludes docs includeLevels path text).map fun p => (p, p.consulted))
    includeLevels []

/-- Expands the text of a file and what it includes, and checks its references. -/
def checkText (o : Options) (path text : String) : Access (Option Checked) :=
  gather (o.rootOf path)
    (fun docs => (o.check docs includeLevels path text).map fun c => (c, c.consulted))
    includeLevels []

/-- Reads a file and goes on with its text. -/
def withText {α : Type} (path : String) (next : String → Access α) : Access (Except Fault α) := do
  match ← Access.read path with
  | .error fault => return .error fault
  | .ok text => return .ok (← next text)

/-- Expands a file and what it includes. -/
def expandFile (o : Options) (path : String) : Access (Except Fault (Option Processed)) :=
  withText path (o.expandText path)

/-- Expands a file and what it includes, and checks its references. -/
def checkFile (o : Options) (path : String) : Access (Except Fault (Option Checked)) :=
  withText path (o.checkText path)

end Options

end Formwork
