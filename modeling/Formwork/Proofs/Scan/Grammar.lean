import Mathlib.Data.List.Basic
import Formwork.Scan

namespace Formwork

/-!
# The grammar of a text

A text is a sequence of items, each as long as it can be: blank characters, comments, quoted and
unquoted atoms, and brackets. The brackets pair up, and no more groups are open at once than is
allowed.

* `Item` — the items. What an item may hold is part of it.
* `Item.Splits` — a text is the sequence of some items.
* `Item.Nested` — the brackets among items pair up.
* `Item.nestAll_eq_some_nil_iff` — whether they do can be found out item by item, with a stack.
-/

/-- Whether a character ends an unquoted atom before it, and cannot start one. -/
def Separates (c : Char) : Prop :=
  Text.isBlank c = true ∨ c = '(' ∨ c = ')' ∨ c = '[' ∨ c = ']' ∨ c = ';' ∨ c = '"'

/-- A character of a quoted atom: written as it is, or after a backslash. -/
inductive Piece where
  | plain (c : Char) (h : c ≠ '"' ∧ c ≠ '\\')
  | escaped (c : Char)

namespace Piece

/-- How a character of a quoted atom is written. -/
def chars : Piece → List Char
  | plain c _ => [c]
  | escaped c => ['\\', c]

/-- The character that is meant. -/
def value : Piece → Char
  | plain c _ => c
  | escaped c => c

end Piece

/-- What a text is made of. An unquoted atom ends with the first colon that is not its first
    character. -/
inductive Item where
  | blank (c : Char) (h : Text.isBlank c = true)
  | comment (text : List Char) (h : '\n' ∉ text ∧ '\r' ∉ text)
  | quoted (pieces : List Piece)
  | word (first : Char) (rest : List Char) (hfirst : ¬Separates first)
      (hrest : ∀ c ∈ rest, ¬Separates c) (hcolon : ':' ∉ rest.dropLast)
  | opening (d : Delim)
  | closing (d : Delim)

namespace Item

/-- How an item is written. -/
def chars : Item → List Char
  | blank c _ => [c]
  | comment text _ => ';' :: text
  | quoted pieces => '"' :: (pieces.flatMap Piece.chars ++ ['"'])
  | word first rest _ _ _ => first :: rest
  | opening d => [d.opening]
  | closing d => [d.closing]

/-- Whether an item is as long as it can be when the given character comes next, if any: a comment
    runs to the end of its line, and an unquoted atom to its colon or to what separates it from the
    next item. -/
def EndsBefore (next : Option Char) : Item → Prop
  | comment _ _ => ∀ c ∈ next, c = '\n' ∨ c = '\r'
  | word _ rest _ _ _ => rest.getLast? = some ':' ∨ ∀ c ∈ next, Separates c
  | _ => True

/-- Whether a text is the sequence of some items, each as long as it can be. -/
inductive Splits : List Char → List Item → Prop where
  | nil : Splits [] []
  | cons (it : Item) {rest : List Char} {items : List Item} (hend : it.EndsBefore rest.head?)
      (hrest : Splits rest items) : Splits (it.chars ++ rest) (it :: items)

/-! ### Events -/

/-- What an item at a location means: blank characters mean nothing. -/
def events (l : Location) : Item → List Event
  | blank _ _ => []
  | comment text _ => [.locate l, .comment (String.ofList text)]
  | quoted pieces => [.locate l, .atom (String.ofList (pieces.map Piece.value))]
  | word first rest _ _ _ => [.locate l, .atom (String.ofList (first :: rest))]
  | opening d => [.locate l, .opening d]
  | closing d => [.locate l, .closing d]

/-- What items mean, the first of which starts at a mark. -/
def eventsAll (src : Source) : Mark → List Item → List Event
  | _, [] => []
  | m, it :: items =>
    it.events (src.locate m) ++ eventsAll src (it.chars.foldl Mark.advance m) items

/-! ### Brackets -/

/-- Whether an item is a bracket. -/
def isBracket : Item → Bool
  | opening _ | closing _ => true
  | _ => false

/-- Whether the brackets among items pair up by kind and are properly nested, where so many more
    groups may be open at once. -/
inductive Nested : Nat → List Item → Prop where
  | nil {limit : Nat} : Nested limit []
  | leaf {limit : Nat} {it : Item} {items : List Item} (hit : it.isBracket = false)
      (h : Nested limit items) : Nested limit (it :: items)
  | group {limit : Nat} {inner items : List Item} (d : Delim) (hinner : Nested limit inner)
      (h : Nested (limit + 1) items) :
      Nested (limit + 1) (opening d :: inner ++ closing d :: items)

/-- What the open groups become at an item: none if it may not stand there. -/
def nest (limit : Nat) (groups : List Delim) : Item → Option (List Delim)
  | opening d => if limit ≤ groups.length then none else some (d :: groups)
  | closing d =>
    match groups with
    | [] => none
    | g :: gs => if g = d then some gs else none
  | _ => some groups

/-- What the open groups become at items, one after another. -/
def nestAll (limit : Nat) : List Delim → List Item → Option (List Delim)
  | groups, [] => some groups
  | groups, it :: items => (it.nest limit groups).bind fun groups => nestAll limit groups items

theorem nest_of_isBracket_eq_false {it : Item} (h : it.isBracket = false) (limit : Nat)
    (groups : List Delim) : it.nest limit groups = some groups := by
  cases it <;> simp [isBracket, nest] at h ⊢

/-- Nested items leave the open groups as they are. -/
theorem Nested.nestAll_append {room : Nat} {items : List Item} (h : Nested room items)
    {limit : Nat} {groups : List Delim} (hroom : room + groups.length ≤ limit)
    (tail : List Item) : nestAll limit groups (items ++ tail) = nestAll limit groups tail := by
  induction h generalizing groups tail with
  | nil => rfl
  | leaf hit _ ih =>
    rw [List.cons_append, nestAll, nest_of_isBracket_eq_false hit, Option.bind_some]
    exact ih hroom tail
  | @group room inner items d _ _ ihinner ih =>
    have hopen : nest limit groups (opening d) = some (d :: groups) := if_neg (by omega)
    have hclose : nest limit (d :: groups) (closing d) = some groups := if_pos rfl
    rw [List.append_assoc, List.cons_append, List.cons_append, nestAll, hopen, Option.bind_some,
      ihinner (by simp only [List.length_cons]; omega), nestAll, hclose, Option.bind_some]
    exact ih hroom tail

/-- Whether items close the open groups, with nested items in between. -/
def Closes (limit : Nat) : List Delim → List Item → Prop
  | [], items => Nested limit items
  | g :: gs, items =>
    ∃ inner rest, items = inner ++ closing g :: rest ∧ Nested (limit - (gs.length + 1)) inner ∧
      Closes limit gs rest

theorem Closes.leaf {limit : Nat} {groups : List Delim} {it : Item} {items : List Item}
    (hit : it.isBracket = false) (h : Closes limit groups items) :
    Closes limit groups (it :: items) := by
  cases groups with
  | nil => exact Nested.leaf hit h
  | cons g gs =>
    obtain ⟨inner, rest, rfl, hinner, hrest⟩ := h
    exact ⟨it :: inner, rest, rfl, Nested.leaf hit hinner, hrest⟩

theorem Closes.group {limit : Nat} {groups : List Delim} {d : Delim} {items : List Item}
    (hroom : groups.length < limit) (h : Closes limit (d :: groups) items) :
    Closes limit groups (opening d :: items) := by
  obtain ⟨inner, rest, rfl, hinner, hrest⟩ := h
  -- the new group is nested where the group around it goes on, if there is one
  cases groups with
  | nil =>
    obtain ⟨room, rfl⟩ := Nat.exists_eq_add_of_lt hroom
    simp only [List.length_nil, Nat.zero_add, Nat.add_sub_cancel] at hinner hrest ⊢
    exact Nested.group d hinner hrest
  | cons g gs =>
    obtain ⟨inner', rest', rfl, hinner', hrest'⟩ := hrest
    refine ⟨opening d :: inner ++ closing d :: inner', rest', by simp, ?_, hrest'⟩
    have hlimit : limit - (gs.length + 1) = limit - ((g :: gs).length + 1) + 1 := by
      simp only [List.length_cons] at hroom ⊢
      omega
    rw [hlimit] at hinner' ⊢
    exact Nested.group d hinner hinner'

/-- Items that close all groups close each of them in turn. -/
theorem closes_of_nestAll {limit : Nat} {groups : List Delim} {items : List Item}
    (h : nestAll limit groups items = some []) : Closes limit groups items := by
  induction items generalizing groups with
  | nil =>
    obtain rfl : groups = [] := by simpa [nestAll] using h
    exact Nested.nil
  | cons it items ih =>
    obtain ⟨groups', hnest, h⟩ := Option.bind_eq_some_iff.mp h
    have hcloses := ih h
    -- brackets change the groups that are open; any other item is passed over
    cases hit : it.isBracket with
    | false =>
      rw [nest_of_isBracket_eq_false hit, Option.some.injEq] at hnest
      exact Closes.leaf hit (hnest ▸ hcloses)
    | true =>
      cases it with
      | opening d =>
        simp only [nest, Option.ite_none_left_eq_some, Option.some.injEq] at hnest
        obtain ⟨hroom, rfl⟩ := hnest
        exact Closes.group (Nat.lt_of_not_le hroom) hcloses
      | closing d =>
        cases groups with
        | nil => simp [nest] at hnest
        | cons g gs =>
          simp only [nest, Option.ite_none_right_eq_some, Option.some.injEq] at hnest
          obtain ⟨rfl, rfl⟩ := hnest
          exact ⟨[], items, rfl, .nil, hcloses⟩
      | blank => simp [isBracket] at hit
      | comment => simp [isBracket] at hit
      | quoted => simp [isBracket] at hit
      | word => simp [isBracket] at hit

/-- **The brackets pair up** exactly when no item stands where it may not, and no group is open in
    the end. -/
theorem nestAll_eq_some_nil_iff {limit : Nat} {items : List Item} :
    nestAll limit [] items = some [] ↔ Nested limit items := by
  constructor
  · exact closes_of_nestAll
  · intro h
    have happend : nestAll limit [] (items ++ []) = nestAll limit [] [] :=
      h.nestAll_append (Nat.le_refl limit) []
    rwa [List.append_nil] at happend

end Item

end Formwork
