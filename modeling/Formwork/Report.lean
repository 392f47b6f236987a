import Formwork.Problem

namespace Formwork

/-!
# Reports

A report says what is wrong, how bad it is, and which places and nodes are to blame. A stage that
finds something wrong adds a report and goes on, so one pass over a document finds as much as it
can.
-/

/-- How bad a report is. -/
inductive Severity where
  | error
  | warning
  deriving DecidableEq, Repr, Inhabited

/-- A problem with the places and nodes it was found at. -/
structure Report where
  problem : Problem
  severity : Severity := .error
  locations : List Location := []
  nodes : List Node := []
  deriving Repr, Inhabited

/-- A place that a report points at: a byte offset into the document, a length in bytes, and what is
    written beside it. -/
structure Label where
  offset : Nat
  length : Nat
  text : String
  deriving DecidableEq, Repr, Inhabited

namespace Report

/-- A report of a problem at a location. -/
def atLocation (problem : Problem) (l : Location) : Report := { problem, locations := [l] }

/-- A report of a problem with a node. -/
def atNode (problem : Problem) (n : Node) : Report := { problem, nodes := [n] }

/-- Whether the report is an error. -/
def isError (r : Report) : Bool := r.severity = .error

/-- Every place involved: the explicit locations first, then those of the nodes. -/
def allLocations (r : Report) : List Location := r.locations ++ r.nodes.map Node.location

/-- The place that the report is about first of all. -/
def primary? (r : Report) : Option Location := r.allLocations.head?

/-- The diagnostic code. -/
def code (r : Report) : String := r.problem.code

/-- The message, with the primary location before it if there is one. -/
def describe (r : Report) : String :=
  match r.primary? with
  | some l => s!"{l.text}: {r.problem.message}"
  | none => r.problem.message

/-- The number of bytes a node takes up where a report points at it. Only an unquoted atom that
    stands in the document itself is as long as its value. -/
def span : Node → Nat
  | .atom a => if !a.quoted && a.location.depth == 1 then max 1 a.value.utf8ByteSize else 1
  | _ => 1

/-- The places to point at. A location may be the very end of the text, so it has no length. -/
def labels (r : Report) : List Label :=
  let text := r.problem.category.label
  r.locations.map (fun l => { offset := l.offset, length := 0, text }) ++
    r.nodes.map fun n => { offset := n.location.offset, length := span n, text }

/-- The number of errors among reports. -/
def errorCount (rs : List Report) : Nat := rs.countP isError

/-- The number of warnings among reports. -/
def warningCount (rs : List Report) : Nat := rs.countP fun r => !r.isError

end Report

end Formwork
