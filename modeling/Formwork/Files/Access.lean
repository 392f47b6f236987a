namespace Formwork.Files

/-!
# Access to files

What is found at a path, and computations that look at paths. Such a computation is run on any
function from paths to what is found there.
-/

/-- Why nothing can be read at a path. -/
inductive Fault where
  | notFound
  | notDirectory
  | isDirectory
  | nameTooLong
  | invalidName
  /-- The bytes are no UTF-8. -/
  | invalidText
  /-- Any other reason, in the words of the system. -/
  | other (reason : String)
  deriving DecidableEq, Repr

/-- The sentence for a fault. -/
def Fault.text : Fault → String
  | notFound => "No such file or directory (os error 2)"
  | notDirectory => "Not a directory (os error 20)"
  | isDirectory => "Is a directory (os error 21)"
  | nameTooLong => "File name too long (os error 36)"
  | invalidName => "file name contained an unexpected NUL byte"
  | invalidText => "stream did not contain valid UTF-8"
  | other reason => reason

/-- What is found at a path. -/
inductive Entry where
  | file (bytes : ByteArray)
  /-- A directory with the names in it. -/
  | directory (names : List String)

/-- What looking at a path gives. -/
abbrev Look := Except Fault Entry

/-- The text that is found at a path. -/
def textOf : Look → Except Fault String
  | .error fault => .error fault
  | .ok (.directory _) => .error .isDirectory
  | .ok (.file bytes) =>
    match String.fromUTF8? bytes with
    | some text => .ok text
    | none => .error .invalidText

/-- A computation that looks at paths. -/
inductive Access (α : Type) where
  /-- The result. -/
  | done (a : α)
  /-- Goes on with what is found at a path. -/
  | look (path : String) (next : Look → Access α)

namespace Access

variable {α β : Type}

/-- Goes on with the result. -/
def bind (x : Access α) (f : α → Access β) : Access β :=
  match x with
  | done a => f a
  | look path next => look path fun found => (next found).bind f

instance : Monad Access where
  pure := done
  bind := bind

/-- The result where `files` says what is found at a path. -/
def run (files : String → Look) : Access α → α
  | done a => a
  | look path next => (next (files path)).run files

/-- What is found at a path. -/
def find (path : String) : Access Look := look path done

/-- The text at a path. -/
def read (path : String) : Access (Except Fault String) := do return textOf (← find path)

@[simp] theorem run_pure (files : String → Look) (a : α) : (pure a : Access α).run files = a := rfl

@[simp] theorem run_bind (files : String → Look) (x : Access α) (f : α → Access β) :
    (x >>= f).run files = (f (x.run files)).run files := by
  show (x.bind f).run files = _
  induction x with
  | done a => rfl
  | look path next ih => exact ih (files path)

@[simp] theorem run_read (files : String → Look) (path : String) :
    (read path).run files = textOf (files path) := rfl

end Access

end Formwork.Files
