import Formwork.Cli.Run

/-!
# The program

Runs the command line on the files of the system. Documents go to standard output, everything that
is said about them to standard error.
-/

namespace Formwork.Cli

open Files

/-- The fault for an error of the system. -/
def faultOf : IO.Error → Fault
  | .noFileOrDirectory .. => .notFound
  | .inappropriateType .. => .notDirectory
  | e => .other (toString e)

/-- Looks at a path of the system. -/
def lookAt (path : String) : IO Look := do
  try
    let isDirectory ← try (← IO.FS.realPath path).isDir catch _ => pure false
    if isDirectory then
      let entries ← (← IO.FS.realPath path).readDir
      return .ok (.directory (entries.toList.map fun entry => entry.fileName))
    else
      return .ok (.file (← IO.FS.readBinFile path))
  catch e =>
    return .error (faultOf e)

/-- Runs a computation on the files of the system. -/
def perform {α : Type} : Access α → IO α
  | .done a => return a
  | .look path next => do perform (next (← lookAt path))

/-- Writes an outcome and gives its status. -/
def present (outcome : Outcome) : IO UInt32 := do
  for m in outcome.messages do
    IO.eprintln m.code
    IO.eprintln s!"  {m.text}"
  IO.print outcome.output
  match outcome.summary with
  | some line => IO.eprintln line
  | none => pure ()
  if outcome.status = 2 then
    IO.eprint helpText
  return outcome.status.toUInt32

end Formwork.Cli

/-- Runs the program. -/
def main (args : List String) : IO UInt32 := do
  Formwork.Cli.present (← Formwork.Cli.perform (Formwork.Cli.run args))
