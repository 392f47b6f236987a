import Formwork.Invocation

namespace Formwork

/-!
# The shape of a rule's invocations

Which arguments an invocation may carry. Every violation is reported, so that an author sees all of
them at once.
-/

/-- The arguments that an invocation of `name` may carry. -/
structure Shape where
  name : String
  /-- The keyword arguments that have to be given. -/
  required : List String
  /-- The keyword arguments that may be given. -/
  allowed : List String
  /-- The least number of positional arguments. -/
  min : Nat
  /-- The greatest number of positional arguments, if there is one. -/
  max : Option Nat
  deriving DecidableEq, Repr

namespace Shape

/-- Reports of the required keyword arguments that are missing. -/
def missing (s : Shape) (inv : Invocation) : List Report :=
  (s.required.filter fun key => (inv.argument? key).isNone).map fun key =>
    .atNode (.missingArgument inv.name key) inv.node

/-- Reports of the keyword arguments that are not allowed. -/
def unexpected (s : Shape) (inv : Invocation) : List Report :=
  (inv.arguments.filter fun argument => argument.1 ∉ s.allowed).map fun argument =>
    .atNode (.unexpectedArgument inv.name argument.1) argument.2

/-- A report of too few positional arguments. -/
def tooFew (s : Shape) (inv : Invocation) : List Report :=
  if inv.remainder.length < s.min then
    [.atNode (.tooFewArguments inv.name s.min inv.remainder.length) inv.node]
  else
    []

/-- A report of too many positional arguments, at the first one that is too many. -/
def tooMany (s : Shape) (inv : Invocation) : List Report :=
  match s.max with
  | none => []
  | some max =>
    ((inv.remainder.drop max).head?.map fun n =>
      .atNode (.tooManyArguments inv.name max inv.remainder.length) n).toList

/-- Everything that is wrong with the arguments of an invocation. -/
def violations (s : Shape) (inv : Invocation) : List Report :=
  s.missing inv ++ s.unexpected inv ++ s.tooFew inv ++ s.tooMany inv

end Shape

end Formwork
