import Formwork.Proofs.Scan.Grammar

namespace Formwork

/-!
# Reading what items are made of

What the scanner makes of the characters that start, continue and end an item.

* `Scanner.step_of_not_separates`, `Scanner.step_quote`, `Scanner.step_semicolon` — an item starts.
* `Scanner.foldl_word_chars`, `Scanner.foldl_pieces`, `Scanner.foldl_comment_text` — it goes on.
* `Scanner.step_opening`, `Scanner.step_closing` — the brackets.
-/

/-! ### Characters -/

/-- What ends an unquoted atom is what separates atoms. -/
theorem endsWord_iff (c : Char) : Scanner.endsWord c = true ↔ Separates c := by
  simp [Scanner.endsWord, Separates]

/-- A colon that may only come last comes last or not at all. -/
theorem colon_cases {cs : List Char} (h : ':' ∉ cs.dropLast) :
    ':' ∉ cs ∨ ∃ front, cs = front ++ [':'] ∧ ':' ∉ front := by
  by_cases hlast : cs.getLast? = some ':'
  · obtain ⟨front, rfl⟩ := List.getLast?_eq_some_iff.mp hlast
    rw [List.dropLast_concat] at h
    exact .inr ⟨front, rfl, h⟩
  · refine .inl fun hmem => ?_
    have hne : cs ≠ [] := List.ne_nil_of_mem hmem
    rw [← List.dropLast_append_getLast hne, List.mem_append, List.mem_singleton] at hmem
    obtain hmem | heq := hmem
    · exact h hmem
    · exact hlast (by rw [List.getLast?_eq_some_getLast hne, heq])

namespace Delim

/-- An opening bracket is not a blank. -/
theorem isBlank_opening (d : Delim) : Text.isBlank d.opening = false := by cases d <;> decide

/-- Neither is a closing one. -/
theorem isBlank_closing (d : Delim) : Text.isBlank d.closing = false := by cases d <;> decide

/-- An opening bracket tells its pair. -/
theorem ofOpening?_opening (d : Delim) : ofOpening? d.opening = some d := by cases d <;> decide

/-- A closing bracket opens nothing. -/
theorem ofOpening?_closing (d : Delim) : ofOpening? d.closing = none := by cases d <;> decide

/-- A closing bracket tells its pair. -/
theorem ofClosing?_closing (d : Delim) : ofClosing? d.closing = some d := by cases d <;> decide

end Delim

namespace Scanner

variable (src : Source) {s : Scanner}

/-! ### Between items -/

/-- Between items a blank is passed over. -/
theorem step_of_isBlank (hmode : s.mode = .between) {c : Char} (hc : Text.isBlank c = true) :
    s.step src c = { s with mark := s.mark.advance c } := by
  simp only [step, read, hmode, readBetween, hc, if_true]

/-- Between items a semicolon starts a comment, whose text is still empty. -/
theorem step_semicolon (hmode : s.mode = .between) :
    s.step src ';' = { s with mark := s.mark.advance ';', mode := .comment s.mark [] } := by
  have hblank : Text.isBlank ';' = false := by decide
  simp [step, read, hmode, readBetween, hblank, Delim.ofOpening?, Delim.ofClosing?]

/-- Between items a quote starts a quoted atom. The quote is not part of its value. -/
theorem step_quote (hmode : s.mode = .between) :
    s.step src '"' = { s with mark := s.mark.advance '"', mode := .quoted s.mark [] false } := by
  have hblank : Text.isBlank '"' = false := by decide
  simp [step, read, hmode, readBetween, hblank, Delim.ofOpening?, Delim.ofClosing?]

/-- What does not separate atoms starts an unquoted one. -/
theorem step_of_not_separates (hmode : s.mode = .between) {c : Char} (hc : ¬Separates c) :
    s.step src c = { s with mark := s.mark.advance c, mode := .word s.mark [c] } := by
  -- the character is none of those that the scanner looks for between items, so it is left for an
  -- atom
  simp only [Separates, not_or] at hc
  obtain ⟨hblank, h₁, h₂, h₃, h₄, hsemi, hquote⟩ := hc
  simp [step, read, hmode, readBetween, hblank, Delim.ofOpening?, Delim.ofClosing?, h₁, h₂, h₃, h₄,
    hsemi, hquote]

/-- Reading an opening bracket where there is room for one more group. -/
theorem step_opening (hmode : s.mode = .between) (hroom : s.groups.length < src.limit)
    (d : Delim) :
    s.step src d.opening
      = { s with
          mark := s.mark.advance d.opening
          groups := d :: s.groups
          events := .opening d :: .locate (src.locate s.mark) :: s.events } := by
  simp only [step, read, hmode, readBetween, d.isBlank_opening, d.ofOpening?_opening, openGroup,
    Nat.not_le.mpr hroom, if_false, send, Bool.false_eq_true]

/-- Reading the bracket that closes the innermost group. -/
theorem step_closing (hmode : s.mode = .between) {d : Delim} {gs : List Delim}
    (hgroups : s.groups = d :: gs) :
    s.step src d.closing
      = { s with
          mark := s.mark.advance d.closing
          groups := gs
          events := .closing d :: .locate (src.locate s.mark) :: s.events } := by
  simp only [step, read, hmode, readBetween, d.isBlank_closing, d.ofOpening?_closing,
    d.ofClosing?_closing, closeGroup, hgroups, if_true, if_false, send, Bool.false_eq_true]

/-! ### Inside items -/

/-- Reading the inside of a comment. -/
theorem foldl_comment_text {start : Mark} {acc text : List Char}
    (hmode : s.mode = .comment start acc) (h : '\n' ∉ text ∧ '\r' ∉ text) :
    text.foldl (step src) s
      = { s with
          mark := text.foldl Mark.advance s.mark
          mode := .comment start (text.reverse ++ acc) } := by
  -- by induction on the text: each character is neither of the two that end a comment, and is put
  -- in front of those already read
  induction text generalizing s acc with
  | nil => cases s; cases hmode; rfl
  | cons c text ih =>
    simp only [List.mem_cons, not_or] at h
    have hstep : s.step src c
        = { s with mark := s.mark.advance c, mode := .comment start (c :: acc) } := by
      simp [step, read, hmode, Ne.symm h.1.1, Ne.symm h.2.1]
    have hmode' : (s.step src c).mode = .comment start (c :: acc) := by rw [hstep]
    rw [List.foldl_cons, ih hmode' ⟨h.1.2, h.2.2⟩, hstep]
    simp

/-- Reading the inside of a quoted atom. -/
theorem foldl_pieces {start : Mark} {acc : List Char} (hmode : s.mode = .quoted start acc false)
    (pieces : List Piece) :
    (pieces.flatMap Piece.chars).foldl (step src) s
      = { s with
          mark := (pieces.flatMap Piece.chars).foldl Mark.advance s.mark
          mode := .quoted start ((pieces.map Piece.value).reverse ++ acc) false } := by
  -- by induction on the pieces: a piece is one character of the value, whether it takes one
  -- character to write or two
  induction pieces generalizing s acc with
  | nil => cases s; cases hmode; rfl
  | cons p pieces ih =>
    have hpiece : p.chars.foldl (step src) s
        = { s with
            mark := p.chars.foldl Mark.advance s.mark
            mode := .quoted start (p.value :: acc) false } := by
      cases p with
      | plain c h => simp [Piece.chars, Piece.value, step, read, hmode, h]
      | escaped c => simp [Piece.chars, Piece.value, step, read, hmode]
    have hmode' : (p.chars.foldl (step src) s).mode = .quoted start (p.value :: acc) false := by
      rw [hpiece]
    rw [List.flatMap_cons, List.foldl_append, List.foldl_append, ih hmode', hpiece]
    simp

/-- Reading what goes on an unquoted atom. -/
theorem foldl_word_chars {start : Mark} {acc cs : List Char} (hmode : s.mode = .word start acc)
    (hcs : ∀ c ∈ cs, ¬Separates c) (hcolon : ':' ∉ cs) :
    cs.foldl (step src) s
      = { s with
          mark := cs.foldl Mark.advance s.mark
          mode := .word start (cs.reverse ++ acc) } := by
  -- by induction on the characters: none separates and none is a colon, so none ends the atom
  induction cs generalizing s acc with
  | nil => cases s; cases hmode; rfl
  | cons c cs ih =>
    simp only [List.mem_cons, not_or] at hcolon
    have hend : endsWord c = false := by
      rw [Bool.eq_false_iff, Ne, endsWord_iff]
      exact hcs c List.mem_cons_self
    have hstep : s.step src c
        = { s with mark := s.mark.advance c, mode := .word start (c :: acc) } := by
      simp [step, read, hmode, Ne.symm hcolon.1, hend]
    have hmode' : (s.step src c).mode = .word start (c :: acc) := by rw [hstep]
    have hcs' : ∀ c' ∈ cs, ¬Separates c' := fun c' hc' => hcs c' (List.mem_cons_of_mem c hc')
    rw [List.foldl_cons, ih hmode' hcs' hcolon.2, hstep]
    simp

/-- A colon goes on an unquoted atom and ends it. -/
theorem step_colon {start : Mark} {acc : List Char} (hmode : s.mode = .word start acc) :
    s.step src ':'
      = { s with
          mark := s.mark.advance ':'
          mode := .between
          events := .atom (String.ofList (acc.reverse ++ [':'])) ::
            .locate (src.locate start) :: s.events } := by
  simp [step, read, hmode, Scanner.between, sendAtom, send]

/-- What separates atoms finds the scanner as if an unquoted atom had ended before. -/
theorem step_of_endsWord {start : Mark} {acc : List Char} (hmode : s.mode = .word start acc)
    {c : Char} (hc : endsWord c = true) :
    s.step src c = (s.sendAtom src start acc).between.step src c := by
  -- the colon is looked for first, but it does not separate atoms
  have hcolon : c ≠ ':' := by
    rintro rfl
    exact absurd hc (by decide)
  simp only [step, read, hmode, hcolon, hc, if_true, if_false, Scanner.between, sendAtom, send]

end Scanner

end Formwork
