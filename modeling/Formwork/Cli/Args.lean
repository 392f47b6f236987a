import Formwork.Text.Numeral

namespace Formwork.Cli

/-!
# Command line arguments

A command, its options and its paths. Options and paths may be mixed; a double hyphen ends the
options. The value of an option follows it, or is joined to it by an equals sign.
-/

/-- What to do. -/
inductive Command where
  /-- Print a document back. -/
  | parse (file : String) (json : Bool)
  /-- Print a document with its includes replaced and its invocations expanded. -/
  | expand (file : String) (json : Bool) (config : Option String) (stripComments : Bool)
      (maxDepth : Option Nat)
  /-- Check documents. -/
  | check (paths : List String) (config : Option String)
  deriving DecidableEq, Repr

/-- Why no command is run. -/
inductive Halt where
  /-- The arguments make no sense. -/
  | usage
  /-- A text was asked for. -/
  | text (text : String)
  deriving DecidableEq, Repr

/-! ### Texts -/

/-- The text that says which version this is. -/
def versionText : String := "sexpand 0.1.0\n"

/-- The text about the program. -/
def helpText : String :=
  "Expands templates and includes in S-expression documents and checks their cross-references.

Usage: sexpand <COMMAND>

Commands:
  parse   Parse a document and print it back
  expand  Process includes and expand templates
  check   Expand documents and check their cross-references
  help    Print this message or the help of the given subcommand(s)

Options:
  -h, --help     Print help
  -V, --version  Print version
"

/-- The text about `parse`. -/
def parseHelp : String :=
  "Parse a document and print it back

Usage: sexpand parse [OPTIONS] <FILE>

Arguments:
  <FILE>  \n
Options:
      --json  Print the node tree as JSON
  -h, --help  Print help
"

/-- The text about `expand`. -/
def expandHelp : String :=
  "Process includes and expand templates

Usage: sexpand expand [OPTIONS] <FILE>

Arguments:
  <FILE>  \n
Options:
      --json                   Print the node tree as JSON
      --config <CONFIG>        YAML file with expansion options
      --strip-comments         Drop comments from the output
      --max-depth <MAX_DEPTH>  Override the maximum expansion depth
  -h, --help                   Print help
"

/-- The text about `check`. -/
def checkHelp : String :=
  "Expand documents and check their cross-references

Usage: sexpand check [OPTIONS] <PATHS>...

Arguments:
  <PATHS>...  Files, or directories searched for `.sexp` files

Options:
      --config <CONFIG>  YAML file with expansion options
  -h, --help             Print help
"

/-- The text about `help`. -/
def helpHelp : String :=
  "Print this message or the help of the given subcommand(s)

Usage: sexpand help [COMMAND]...

Arguments:
  [COMMAND]...  Print help for the subcommand(s)
"

/-! ### Reading options -/

/-- The options that a command has. -/
structure Options where
  /-- Those that stand alone. -/
  flags : List String := []
  /-- Those that have a value, with the values that are accepted. -/
  values : List (String × (String → Bool)) := []
  help : String

/-- The arguments of a command. -/
structure Given where
  flags : List String := []
  values : List (String × String) := []
  paths : List String := []

namespace Given

/-- Adds a flag, which may be given once. -/
def addFlag (g : Given) (name : String) : Except Halt Given :=
  if name ∈ g.flags then .error .usage else .ok { g with flags := name :: g.flags }

/-- Adds the value of an option, which may be given once. -/
def addValue (g : Given) (name value : String) (accepts : String → Bool) : Except Halt Given :=
  if (g.values.lookup name).isSome || !accepts value then .error .usage
  else .ok { g with values := (name, value) :: g.values }

/-- Adds a path, which has to hold a character; there may be at most `most` of them. -/
def addPath (g : Given) (most : Option Nat) (path : String) : Except Halt Given :=
  if path.isEmpty || most.any (· ≤ g.paths.length) then .error .usage
  else .ok { g with paths := g.paths ++ [path] }

end Given

/-- The name and the joined value of a long option. -/
def splitOption (arg : String) : String × Option String :=
  let chars := arg.toList
  let name := String.ofList (chars.takeWhile (· ≠ '='))
  match chars.dropWhile (· ≠ '=') with
  | [] => (name, none)
  | _ :: value => (name, some (String.ofList value))

/-- Whether an argument is an option and no path. -/
def isOption (arg : String) : Bool := arg.startsWith "-" && arg ≠ "-"

/-- Reads the arguments of a command, given what was read so far. -/
def readArgs (opts : Options) (most : Option Nat) (g : Given) : List String → Except Halt Given
  | [] => .ok g
  | "--" :: paths => paths.foldlM (fun g path => g.addPath most path) g
  | arg :: args =>
    let (name, joined) := splitOption arg
    if !isOption arg then
      do readArgs opts most (← g.addPath most arg) args
    else if arg.startsWith "-h" || arg = "--help" then
      .error (.text opts.help)
    else if name ∈ opts.flags && joined.isNone then
      do readArgs opts most (← g.addFlag name) args
    else
      match opts.values.lookup name, joined, args with
      | none, _, _ => .error .usage
      | some accepts, some value, args =>
        do readArgs opts most (← g.addValue name value accepts) args
      | some accepts, none, value :: args =>
        if isOption value then .error .usage
        else do readArgs opts most (← g.addValue name value accepts) args
      | some _, none, [] => .error .usage

/-! ### Commands -/

/-- Whether a path has a character. -/
def isPath (value : String) : Bool := !value.isEmpty

/-- The options of `parse`. -/
def parseOptions : Options := { flags := ["--json"], help := parseHelp }

/-- The options of `expand`. -/
def expandOptions : Options where
  flags := ["--json", "--strip-comments"]
  values := [("--config", isPath), ("--max-depth", fun value => (Text.count? value).isSome)]
  help := expandHelp

/-- The options of `check`. -/
def checkOptions : Options := { values := [("--config", isPath)], help := checkHelp }

/-- Reads a command behind its name. -/
def readCommand (name : String) (args : List String) : Except Halt Command :=
  match name with
  | "parse" => do
    let g ← readArgs parseOptions (some 1) {} args
    match g.paths with
    | [file] => return .parse file ("--json" ∈ g.flags)
    | _ => .error .usage
  | "expand" => do
    let g ← readArgs expandOptions (some 1) {} args
    match g.paths with
    | [file] =>
      return .expand file ("--json" ∈ g.flags) (g.values.lookup "--config")
        ("--strip-comments" ∈ g.flags) ((g.values.lookup "--max-depth").bind Text.count?)
    | _ => .error .usage
  | "check" => do
    let g ← readArgs checkOptions none {} args
    if g.paths.isEmpty then .error .usage
    else return .check g.paths (g.values.lookup "--config")
  | _ => .error .usage

/-- The text about a command. -/
def helpOn : List String → Halt
  | [] => .text helpText
  | ["parse"] => .text parseHelp
  | ["expand"] => .text expandHelp
  | ["check"] => .text checkHelp
  | ["help"] => .text helpHelp
  | _ => .usage

/-- Reads the arguments of the program. -/
def readProgram : List String → Except Halt Command
  | [] => .error .usage
  | "help" :: args => .error (helpOn args)
  | arg :: args =>
    if arg.startsWith "-V" || arg = "--version" then .error (.text versionText)
    else if arg.startsWith "-h" || arg = "--help" then .error (.text helpText)
    else readCommand arg args

end Formwork.Cli
