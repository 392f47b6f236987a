import Formwork.Cli.Args
import Formwork.Files.Documents
import Formwork.Node.Json

namespace Formwork.Cli

/-!
# Running commands

A command gives a status, a text for standard output, and messages. The status is 0 when nothing was
wrong, 1 when something was, and 2 when the arguments make no sense.
-/

open Files

/-- Something that is said about a document or the command: a diagnostic code and a sentence. -/
structure Message where
  code : String
  text : String
  deriving DecidableEq, Repr

/-- What a command gives. -/
structure Outcome where
  status : Nat
  output : String := ""
  messages : List Message := []
  /-- The line about all the documents that were checked. -/
  summary : Option String := none
  deriving DecidableEq, Repr

/-- What is said in a report. -/
def Message.ofReport (r : Report) : Message := ⟨r.code, r.describe⟩

/-- What is said when a file cannot be read. -/
def Message.unreadable (path : String) (fault : Fault) : Message :=
  ⟨"sexpand::cli::read", s!"cannot read {path}: {fault.text}"⟩

/-- What is said when there are no options to be had from a file. -/
def Message.noOptions (why : OptionsFailure) : Message := ⟨"sexpand::cli::config", why.message⟩

/-- What is said when the includes of a document do not end. -/
def Message.endless (path : String) : Message :=
  ⟨"sexpand::cli::endless", s!"the includes of {path} do not end"⟩

/-- The outcome of a command that cannot be run. -/
def failed (m : Message) : Outcome := { status := 1, messages := [m] }

/-! ### Single documents -/

/-- The text of nodes: one to a line, or all of them as JSON. -/
def nodesText (ns : List Node) (json : Bool) : String :=
  if json then (Json.list (Node.toJsonAll ns)).pretty 0 ++ "\n" else Node.lines ns

/-- The outcome of processing a document. -/
def processedOutcome (p : Processed) (json : Bool) : Outcome where
  status := if Report.errorCount p.reports = 0 then 0 else 1
  output := nodesText p.nodes json
  messages := p.reports.map .ofReport

/-- Prints a document back. -/
def runParse (file : String) (json : Bool) : Access Outcome := do
  match ← Access.read file with
  | .error fault => return failed (.unreadable file fault)
  | .ok text => return processedOutcome (({} : Formwork.Options).parse file text) json

/-- Prints an expanded document. -/
def runExpand (file : String) (json : Bool) (o : Formwork.Options) : Access Outcome := do
  match ← o.expandFile file with
  | .error fault => return failed (.unreadable file fault)
  | .ok none => return failed (.endless file)
  | .ok (some p) => return processedOutcome p json

/-! ### Many documents -/

/-- The number of directories that may lie inside one another: no longer path can be written. -/
def directoryLevels : Nat := 4096

/-- The ending of the documents that are looked for in directories. -/
def documentExtension : String := "sexp"

/-- The documents at a path inside a directory, in the order of their names. -/
def documentsBelow : Nat → String → Access (List String)
  | 0, _ => return []
  | levels + 1, path => do
    match ← Access.find path with
    | .error _ => return []
    | .ok (.file _) => return if extension? path = some documentExtension then [path] else []
    | .ok (.directory names) =>
      let sorted := names.mergeSort fun a b => a ≤ b
      let found ← sorted.mapM fun name => documentsBelow levels (join path name)
      return found.flatten

/-- The documents that a path of the command names: itself, or those in it. -/
def documentsAt (path : String) : Access (List String) := do
  match ← Access.find path with
  | .ok (.directory _) => documentsBelow directoryLevels path
  | _ => return [path]

/-- What checking documents has found so far. -/
structure Summary where
  files : Nat := 0
  errors : Nat := 0
  warnings : Nat := 0
  messages : List Message := []

namespace Summary

/-- Adds a document with its reports. -/
def add (s : Summary) (rs : List Report) : Summary where
  files := s.files + 1
  errors := s.errors + Report.errorCount rs
  warnings := s.warnings + Report.warningCount rs
  messages := s.messages ++ rs.map .ofReport

/-- Adds a document that could not be checked, which is one error. -/
def addFailed (s : Summary) (m : Message) : Summary :=
  { s with files := s.files + 1, errors := s.errors + 1, messages := s.messages ++ [m] }

/-- A count with its noun. -/
def counted (count : Nat) (noun : String) : String :=
  if count = 1 then s!"{count} {noun}" else s!"{count} {noun}s"

/-- The line about all the documents. -/
def text (s : Summary) : String :=
  "checked " ++ counted s.files "file" ++ ": " ++ counted s.errors "error" ++ ", " ++
    counted s.warnings "warning"

end Summary

/-- Checks one document more. -/
def checkDocument (o : Formwork.Options) (s : Summary) (path : String) : Access Summary := do
  match ← o.checkFile path with
  | .error fault => return s.addFailed (.unreadable path fault)
  | .ok none => return s.addFailed (.endless path)
  | .ok (some c) => return s.add c.reports

/-- Checks documents. -/
def runCheck (paths : List String) (o : Formwork.Options) : Access Outcome := do
  let documents ← paths.mapM documentsAt
  let s ← documents.flatten.foldlM (checkDocument o) {}
  return {
    status := if s.errors = 0 then 0 else 1
    messages := s.messages
    summary := some s.text }

/-! ### The program -/

/-- Goes on with the options from a file, or with the defaults. -/
def withOptions (config : Option String) (next : Formwork.Options → Access Outcome) :
    Access Outcome := do
  match config with
  | none => next {}
  | some path =>
    match ← Formwork.Options.read path with
    | .error why => return failed (.noOptions why)
    | .ok o => next o

/-- Runs a command. -/
def Command.run : Command → Access Outcome
  | .parse file json => runParse file json
  | .expand file json config stripComments maxDepth =>
    withOptions config fun o =>
      runExpand file json
        { o with
          keepComments := o.keepComments && !stripComments
          maxExpansionDepth := maxDepth.getD o.maxExpansionDepth }
  | .check paths config => withOptions config (runCheck paths)

/-- Runs the program with its arguments. -/
def run (args : List String) : Access Outcome :=
  match readProgram args with
  | .ok command => command.run
  | .error (.text text) => return { status := 0, output := text }
  | .error .usage => return { status := 2 }

end Formwork.Cli
