import Formwork.Location
import Mathlib.Data.List.Induction

namespace Formwork

/-!
# True marks

A mark is one of a text when its offset, line and column are those of a character of the text, or of
its end.

* `Mark.foldl_advance` — going on by some characters counts them.
* `Mark.Reads` — what a text reads from a mark on.
* `Mark.reads_foldl` — going on from the start of a text by its characters gives marks of the text.
-/

namespace Mark

/-- The characters since the last line feed. -/
def sinceLine (cs : List Char) : List Char := cs.reverse.takeWhile (· ≠ '\n')

/-- Whether a text reads as given from a mark on: the mark stands after the characters before that,
    with their bytes for its offset, their line feeds for its line, and those since the last line
    feed for its column. -/
def Reads (text : String) (m : Mark) (rest : List Char) : Prop :=
  ∃ before, text.toList = before ++ rest ∧
    m.offset = (String.ofList before).utf8ByteSize ∧
    m.line = 1 + before.count '\n' ∧
    m.column = 1 + (sinceLine before).length

/-- Whether a mark is one of a text. -/
def IsOf (text : String) (m : Mark) : Prop := ∃ rest, m.Reads text rest

/-- The mark after some characters counts them. -/
theorem foldl_advance (cs : List Char) :
    cs.foldl advance start
      = ⟨(String.ofList cs).utf8ByteSize, 1 + cs.count '\n', 1 + (sinceLine cs).length⟩ := by
  induction cs using List.reverseRecOn with
  | nil => rfl
  | append_singleton cs c ih =>
    have hbytes : (String.ofList (cs ++ [c])).utf8ByteSize
        = (String.ofList cs).utf8ByteSize + c.utf8Size := by simp
    rw [List.foldl_append, List.foldl_cons, List.foldl_nil, ih, advance, hbytes]
    by_cases hc : c = '\n'
    · subst hc
      simp [sinceLine, Nat.add_assoc]
    · simp [sinceLine, hc, Nat.add_comm]

/-- Going on by some characters goes on by their bytes. -/
theorem offset_foldl (m : Mark) (cs : List Char) :
    (cs.foldl advance m).offset = m.offset + (String.ofList cs).utf8ByteSize := by
  induction cs using List.reverseRecOn with
  | nil => rfl
  | append_singleton cs c ih =>
    have hstep : ∀ m : Mark, (m.advance c).offset = m.offset + c.utf8Size := by
      intro m
      unfold advance
      split <;> rfl
    rw [List.foldl_append, List.foldl_cons, List.foldl_nil, hstep, ih]
    simp [Nat.add_assoc]

/-- The mark after the first characters of a text reads the others. -/
theorem reads_foldl {text : String} {before rest : List Char} (h : text.toList = before ++ rest) :
    (before.foldl advance start).Reads text rest :=
  ⟨before, h, by rw [foldl_advance], by rw [foldl_advance], by rw [foldl_advance]⟩

theorem Reads.isOf {text : String} {m : Mark} {rest : List Char} (h : m.Reads text rest) :
    m.IsOf text := ⟨rest, h⟩

/-- Lines count from 1. -/
theorem IsOf.line_ne_zero {text : String} {m : Mark} (h : m.IsOf text) : m.line ≠ 0 := by
  obtain ⟨rest, before, -, -, hline, -⟩ := h
  omega

end Mark

end Formwork
