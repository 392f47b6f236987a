import Formwork.Report

namespace Formwork

/-!
# Invocations

A group read as a call: the head is an atom, keyword arguments `key: value` follow it, and then
come positional arguments. A keyword may itself be the value of a keyword argument. Comments are
looked past.
-/

/-- A call. The keys of the keyword arguments are distinct, in the order they were written. -/
structure Invocation where
  name : String
  /-- The group that was read. -/
  node : Node
  arguments : List (String × Node)
  remainder : List Node

namespace Invocation

/-- Reads the positional arguments, none of which may be a keyword. -/
def readRemainder (ns : List Node) : Except Report (List Node) :=
  match ns.findSome? fun n => n.keyword?.map fun key => (key, n) with
  | some (key, n) => .error (.atNode (.keywordAfterPositional key) n)
  | none => .ok ns

/-- Reads the nodes after the head, given the keyword arguments read so far. -/
def readArguments (seen : List (String × Node)) :
    List Node → Except Report (List (String × Node) × List Node)
  | [] => .ok (seen, [])
  | n :: ns =>
    match n.keyword?, ns with
    | none, ns => (readRemainder (n :: ns)).map fun remainder => (seen, remainder)
    | some key, [] => .error (.atNode (.missingKeywordValue key) n)
    | some key, value :: ns =>
      if seen.any (·.1 = key) then
        .error (.atNode (.duplicateKeyword key) value)
      else
        readArguments (seen ++ [(key, value)]) ns

/-- Reads a node as a call. What is wrong with its shape is reported. -/
def ofNode (n : Node) : Except Report Invocation :=
  if !n.isGroup then
    .error (.atNode .notAList n)
  else
    match n.head? with
    | none => .error (.atNode .emptyInvocation n)
    | some head =>
      match head.atom? with
      | none => .error (.atNode .headNotAtom head)
      | some a =>
        (readArguments [] n.tail).map fun (arguments, remainder) =>
          { name := a.value, node := n, arguments, remainder }

/-- The value of a keyword argument. -/
def argument? (inv : Invocation) (key : String) : Option Node :=
  (inv.arguments.find? (·.1 = key)).map Prod.snd

end Invocation

end Formwork
