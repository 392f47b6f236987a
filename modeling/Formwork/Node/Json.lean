import Formwork.Json
import Formwork.Node.Basic

namespace Formwork

/-!
# Nodes as JSON

A node is a record that is tagged with its kind; nothing of it is lost. In a list of nodes every
location is written out in full.
-/

/-! ### Writing -/

/-- The word for a hop. -/
def Hop.word : Hop → String
  | .normal => "Normal"
  | .inclusion => "Include"
  | .template => "Template"

/-- The word for a bracket pair. -/
def Delim.word : Delim → String
  | .paren => "Paren"
  | .bracket => "Bracket"

/-- A position as JSON. -/
def Position.toJson (p : Position) : Json :=
  .object
    [("origin", .text p.origin), ("offset", .number p.mark.offset), ("line", .number p.mark.line),
      ("column", .number p.mark.column), ("kind", .text p.hop.word)]

/-- A location as JSON. -/
def Location.toJson (l : Location) : Json :=
  .object [("chain", .list (l.chain.map Position.toJson))]

namespace Node

mutual

/-- A node as JSON. -/
def toJson : Node → Json
  | atom a =>
    .object
      [("type", .text "atom"), ("value", .text a.value), ("quoted", .bool a.quoted),
        ("location", a.location.toJson)]
  | comment c =>
    .object [("type", .text "comment"), ("text", .text c.text), ("location", c.location.toJson)]
  | group d cs l s =>
    .object
      [("type", .text "seq"), ("delim", .text d.word), ("children", .list (toJsonAll cs)),
        ("location", l.toJson), ("end", s.toJson)]

/-- Nodes as JSON values. -/
def toJsonAll : List Node → List Json
  | [] => []
  | n :: ns => toJson n :: toJsonAll ns

end

end Node

/-! ### Reading -/

/-- The hop with a word. -/
def Hop.ofWord? (word : String) : Option Hop :=
  [Hop.normal, .inclusion, .template].find? fun hop => hop.word = word

/-- The bracket pair with a word. -/
def Delim.ofWord? (word : String) : Option Delim :=
  [Delim.paren, .bracket].find? fun d => d.word = word

/-- The position that a JSON value stands for. -/
def Position.ofJson? (j : Json) : Option Position := do
  let [origin, offset, line, column, kind] ←
    j.record? ["origin", "offset", "line", "column", "kind"] | none
  let mark : Mark := ⟨← offset.count?, ← line.count?, ← column.count?⟩
  return { origin := ← origin.text?, mark, hop := ← Hop.ofWord? (← kind.choice?) }

/-- The location that a JSON value stands for. -/
def Location.ofJson? (j : Json) : Option Location := do
  let [chain] ← j.record? ["chain"] | none
  return ⟨← (← chain.list?).mapM Position.ofJson?⟩

namespace Node

/-- The kind that a tag says: its word, or its number if the record is inside of another one. -/
def kind? (inner : Bool) : Json → Option String
  | .text s => some s
  | .number n => if inner then ["atom", "seq", "comment"][n]? else none
  | _ => none

/-- The kind of a tagged record and the record without its tag. -/
def tagged? (inner : Bool) : Json → Option (String × Json)
  | .object fs => do return (← kind? inner (← fs.lookup "type"), .object fs)
  | .list (tag :: vs) => do return (← kind? inner tag, .list vs)
  | _ => none

/-- The atom that a record stands for. -/
def atomOfJson? (j : Json) : Option Node := do
  let [value, quoted, location] ← j.record? ["value", "quoted", "location"] | none
  return .atom
    { value := ← value.text?, quoted := ← quoted.bool?, location := ← Location.ofJson? location }

/-- The comment that a record stands for. -/
def commentOfJson? (j : Json) : Option Node := do
  let [text, location] ← j.record? ["text", "location"] | none
  return .comment { text := ← text.text?, location := ← Location.ofJson? location }

/-- The group that a record stands for, given its children. -/
def groupOfJson? (j : Json) (children : Option (List Node)) : Option Node := do
  let [delim, _, location, stop] ← j.record? ["delim", "children", "location", "end"] | none
  return .group (← Delim.ofWord? (← delim.choice?)) (← children) (← Location.ofJson? location)
    (← Location.ofJson? stop)

/-- The node that a record of a kind stands for, given the children that it would have. -/
def taggedOfJson? (kind : String) (j : Json) (children : Option (List Node)) : Option Node :=
  if kind = "atom" then atomOfJson? j
  else if kind = "comment" then commentOfJson? j
  else if kind = "seq" then groupOfJson? j children
  else none

mutual

/-- The node that a JSON value stands for; `inner` says that it is a child of another one. -/
def ofJson? (inner : Bool) : Json → Option Node
  | .object fs =>
    (tagged? inner (.object fs)).bind fun (kind, j) => taggedOfJson? kind j (childrenField? fs)
  | .list [] => none
  | .list (tag :: vs) =>
    (tagged? inner (.list (tag :: vs))).bind fun (kind, j) =>
      taggedOfJson? kind j (childrenItem? vs)
  | _ => none

/-- The nodes that a list of JSON values stands for. -/
def ofJsonAll? (inner : Bool) : List Json → Option (List Node)
  | [] => some []
  | j :: js => (ofJson? inner j).bind fun n => (ofJsonAll? inner js).map fun ns => n :: ns

/-- The children in the list that a JSON value is. -/
def children? : Json → Option (List Node)
  | .list js => ofJsonAll? true js
  | _ => none

/-- The nodes in the field with the children. -/
def childrenField? : List (String × Json) → Option (List Node)
  | [] => none
  | (name, j) :: fs => if name = "children" then children? j else childrenField? fs

/-- The nodes in the item with the children. -/
def childrenItem? : List Json → Option (List Node)
  | _ :: j :: _ => children? j
  | _ => none

end

/-- The nodes in the list that a JSON value is. -/
def ofJsonList? : Json → Option (List Node)
  | .list js => ofJsonAll? false js
  | _ => none

end Node

end Formwork
