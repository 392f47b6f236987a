import Formwork.Node.Json
import Formwork.Proofs.Provenance.Located

namespace Formwork

/-!
# Nodes survive being written as JSON

What is read from the JSON form of something is this very thing. The only condition is that its
counts have 64 bits, as the marks of every text in memory do.

* `Position.ofJson?_toJson`, `Location.ofJson?_toJson` — chains of positions.
* `Node.ofJson?_toJson` — nodes at the top and inside of others, with everything in them.
* `Node.ofJsonList?_toJsonAll` — whole documents.
-/

/-! ### Words and counts -/

/-- The word of a hop is read as that hop. -/
theorem Hop.ofWord?_word (hop : Hop) : ofWord? hop.word = some hop := by cases hop <;> rfl

/-- The word of a bracket pair is read as that pair. -/
theorem Delim.ofWord?_word (d : Delim) : ofWord? d.word = some d := by cases d <;> rfl

/-- A number is read as a count exactly if it has 64 bits. -/
theorem Json.count?_number {n m : Nat} :
    (number n).count? = some m ↔ m = n ∧ n < Text.countBound := by
  simp only [count?, Option.ite_none_right_eq_some, Option.some.injEq, eq_comm, and_comm]

/-! ### Locations -/

/-- Whether the counts of a mark have 64 bits. -/
def Mark.Fits (m : Mark) : Prop :=
  m.offset < Text.countBound ∧ m.line < Text.countBound ∧ m.column < Text.countBound

/-- What is read from the JSON form of a position is the position. It is read exactly if its counts
    have 64 bits. -/
theorem Position.ofJson?_toJson {p q : Position} :
    ofJson? p.toJson = some q ↔ q = p ∧ p.mark.Fits := by
  have hrecord : p.toJson.record? ["origin", "offset", "line", "column", "kind"]
      = some [.text p.origin, .number p.mark.offset, .number p.mark.line, .number p.mark.column,
          .text p.hop.word] := rfl
  -- the fields are read in turn; only the counts can fail, and each says when it does
  simp only [ofJson?, hrecord, Json.text?, Json.choice?, Hop.ofWord?_word, Option.bind_eq_bind,
    Option.bind_some, Option.bind_eq_some_iff, Json.count?_number, Option.pure_def,
    Option.some.injEq, and_assoc, exists_eq_left]
  constructor
  · rintro ⟨hoffset, hline, hcolumn, rfl⟩
    exact ⟨rfl, hoffset, hline, hcolumn⟩
  · rintro ⟨rfl, hoffset, hline, hcolumn⟩
    exact ⟨hoffset, hline, hcolumn, rfl⟩

/-- The positions of a chain are read one after another, so a single one that does not fit spoils
    the chain. -/
theorem Position.mapM_ofJson?_toJson {ps qs : List Position} :
    (ps.map toJson).mapM ofJson? = some qs ↔ qs = ps ∧ ∀ p ∈ ps, p.mark.Fits := by
  induction ps generalizing qs with
  | nil => simp [eq_comm]
  | cons p ps ih =>
    simp only [List.map_cons, List.mapM_cons, Option.bind_eq_bind, Option.bind_eq_some_iff,
      ofJson?_toJson, ih, Option.pure_def, Option.some.injEq, List.forall_mem_cons, and_assoc,
      exists_eq_left]
    constructor
    · rintro ⟨hp, hps, rfl⟩
      exact ⟨rfl, hp, hps⟩
    · rintro ⟨rfl, hp, hps⟩
      exact ⟨hp, hps, rfl⟩

/-- Whether all counts in a chain have 64 bits. -/
def Location.Fits (l : Location) : Prop := ∀ p ∈ l.chain, p.mark.Fits

/-- What is read from the JSON form of a location is the location. -/
theorem Location.ofJson?_toJson {l k : Location} : ofJson? l.toJson = some k ↔ k = l ∧ l.Fits := by
  have hrecord : l.toJson.record? ["chain"] = some [.list (l.chain.map Position.toJson)] := rfl
  simp only [ofJson?, hrecord, Json.list?, Option.bind_eq_bind, Option.bind_some,
    Option.bind_eq_some_iff, Position.mapM_ofJson?_toJson, Option.pure_def, Option.some.injEq,
    and_assoc, exists_eq_left]
  rw [and_comm, eq_comm, Fits]

/-! ### Nodes -/

namespace Node

/-- An atom is read as it was written, at the top and inside of another node. -/
theorem ofJson?_atom {inner : Bool} {a : Atom} {m : Node} :
    ofJson? inner (atom a).toJson = some m ↔ m = .atom a ∧ a.location.Fits := by
  -- the tag decides which record is read, and the record has the fields that were written
  have htagged : ofJson? inner (atom a).toJson = atomOfJson? (atom a).toJson := rfl
  have hrecord : (atom a).toJson.record? ["value", "quoted", "location"]
      = some [.text a.value, .bool a.quoted, a.location.toJson] := rfl
  simp only [htagged, atomOfJson?, hrecord, Json.text?, Json.bool?, Option.bind_eq_bind,
    Option.bind_some, Option.bind_eq_some_iff, Location.ofJson?_toJson, Option.pure_def,
    Option.some.injEq, and_assoc, exists_eq_left]
  rw [and_comm, eq_comm]

/-- So is a comment. -/
theorem ofJson?_comment {inner : Bool} {c : Comment} {m : Node} :
    ofJson? inner (comment c).toJson = some m ↔ m = .comment c ∧ c.location.Fits := by
  have htagged : ofJson? inner (comment c).toJson = commentOfJson? (comment c).toJson := rfl
  have hrecord : (comment c).toJson.record? ["text", "location"]
      = some [.text c.text, c.location.toJson] := rfl
  simp only [htagged, commentOfJson?, hrecord, Json.text?, Option.bind_eq_bind, Option.bind_some,
    Option.bind_eq_some_iff, Location.ofJson?_toJson, Option.pure_def, Option.some.injEq, and_assoc,
    exists_eq_left]
  rw [and_comm, eq_comm]

/-- A group is read when its children and its locations are. -/
theorem ofJson?_group {inner : Bool} {d : Delim} {cs : List Node} {l stop : Location} {m : Node} :
    ofJson? inner (group d cs l stop).toJson = some m ↔
      ∃ cs', ofJsonAll? true (toJsonAll cs) = some cs' ∧
        m = .group d cs' l stop ∧ l.Fits ∧ stop.Fits := by
  -- the children are inside of another record, whatever the group itself is
  have htagged : ofJson? inner (group d cs l stop).toJson
      = groupOfJson? (group d cs l stop).toJson (ofJsonAll? true (toJsonAll cs)) := rfl
  have hrecord : (group d cs l stop).toJson.record? ["delim", "children", "location", "end"]
      = some [.text d.word, .list (toJsonAll cs), l.toJson, stop.toJson] := rfl
  simp only [htagged, groupOfJson?, hrecord, Json.choice?, Delim.ofWord?_word, Option.bind_eq_bind,
    Option.bind_some, Option.bind_eq_some_iff, Location.ofJson?_toJson, Option.pure_def,
    Option.some.injEq, and_assoc, exists_eq_left]
  constructor
  · rintro ⟨cs', hcs, hl, hstop, rfl⟩
    exact ⟨cs', hcs, rfl, hl, hstop⟩
  · rintro ⟨cs', hcs, rfl, hl, hstop⟩
    exact ⟨cs', hcs, hl, hstop, rfl⟩

mutual

/-- What is read from the JSON form of a node is the node, at the top and inside of another one. -/
theorem ofJson?_toJson (inner : Bool) : ∀ {n m : Node},
    ofJson? inner n.toJson = some m ↔ m = n ∧ n.Located Location.Fits
  | .atom _, _ => ofJson?_atom
  | .comment _, _ => ofJson?_comment
  | .group d cs l stop, m => by
    -- by induction on the node: the children are read as they were written
    simp only [ofJson?_group, ofJsonAll?_toJsonAll true, and_assoc, exists_eq_left]
    constructor
    · rintro ⟨hcs, rfl, hl, hstop⟩
      exact ⟨rfl, hl, hstop, hcs⟩
    · rintro ⟨rfl, hl, hstop, hcs⟩
      exact ⟨hcs, rfl, hl, hstop⟩

/-- What is read from the JSON forms of nodes are the nodes. -/
theorem ofJsonAll?_toJsonAll (inner : Bool) : ∀ {ns ms : List Node},
    ofJsonAll? inner (toJsonAll ns) = some ms ↔ ms = ns ∧ LocatedAll Location.Fits ns
  | [], ms => by simp [toJsonAll, ofJsonAll?, LocatedAll, eq_comm]
  | n :: ns, ms => by
    simp only [toJsonAll, ofJsonAll?, Option.bind_eq_some_iff, Option.map_eq_some_iff,
      ofJson?_toJson inner, ofJsonAll?_toJsonAll inner, and_assoc, exists_eq_left]
    constructor
    · rintro ⟨hn, hns, rfl⟩
      exact ⟨rfl, hn, hns⟩
    · rintro ⟨rfl, hn, hns⟩
      exact ⟨hn, hns, rfl⟩

end

/-- **The JSON form loses nothing.** Reading the JSON form of a document gives the document and
    nothing else. It gives it exactly if all counts have 64 bits. -/
theorem ofJsonList?_toJsonAll (ns ms : List Node) :
    ofJsonList? (.list (toJsonAll ns)) = some ms ↔ ms = ns ∧ LocatedAll Location.Fits ns :=
  ofJsonAll?_toJsonAll false

end Node

end Formwork
