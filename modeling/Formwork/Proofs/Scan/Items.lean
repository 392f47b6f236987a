import Formwork.Proofs.Scan.Reading

namespace Formwork

/-!
# The scanner reads items

Between items the scanner is as it was, only further on: an item that is as long as it can be, and may
stand where it does, has no effect but that what it means is written and brackets open and close
groups.

* `scanFrom_item` — reading an item from between items.
* `exists_item` — every text starts with an item, unless it starts with a quoted atom that is
  not terminated.
-/

/-- What a scan gives when it goes on from a state. -/
def scanFrom (src : Source) (s : Scanner) (cs : List Char) : Scanned :=
  let t := (cs.foldl (Scanner.step src) s).finish src
  ⟨t.events.reverse, t.reports.reverse⟩

variable {src : Source} {s : Scanner}

theorem scanFrom_append (xs ys : List Char) :
    scanFrom src s (xs ++ ys) = scanFrom src (xs.foldl (Scanner.step src) s) ys := by
  rw [scanFrom, scanFrom, List.foldl_append]

theorem scanFrom_cons (c : Char) (cs : List Char) :
    scanFrom src s (c :: cs) = scanFrom src (s.step src c) cs := rfl

namespace Scanner

/-- The scanner, between items, when it has read an item. -/
def after (src : Source) (s : Scanner) (it : Item) (groups : List Delim) : Scanner :=
  { s with
    mark := it.chars.foldl Mark.advance s.mark
    groups
    events := (it.events (src.locate s.mark)).reverse ++ s.events }

end Scanner

/-! ### Items that end with what comes next -/

/-- A comment ends where its line ends. -/
theorem scanFrom_of_comment {start : Mark} {chars rest : List Char}
    (hmode : s.mode = .comment start chars) (hend : ∀ c ∈ rest.head?, c = '\n' ∨ c = '\r') :
    scanFrom src s rest = scanFrom src (s.sendComment src start chars).between rest := by
  cases rest with
  | nil =>
    simp [scanFrom, Scanner.finish, Scanner.flush, hmode, Scanner.between, Scanner.sendComment,
      Scanner.send, Scanner.report]
    split <;> simp
  | cons c rest =>
    have hline : c = '\n' ∨ c = '\r' := hend c rfl
    have hblank : Text.isBlank c = true := by obtain rfl | rfl := hline <;> decide
    rw [scanFrom_cons, scanFrom_cons]
    simp [Scanner.step, Scanner.read, hmode, hline, Scanner.between, Scanner.readBetween, hblank,
      Scanner.sendComment, Scanner.send]

/-- An unquoted atom ends where something separates it from what comes next. -/
theorem scanFrom_of_word {start : Mark} {chars rest : List Char}
    (hmode : s.mode = .word start chars) (hend : ∀ c ∈ rest.head?, Separates c) :
    scanFrom src s rest = scanFrom src (s.sendAtom src start chars).between rest := by
  cases rest with
  | nil =>
    simp [scanFrom, Scanner.finish, Scanner.flush, hmode, Scanner.between, Scanner.sendAtom,
      Scanner.send, Scanner.report]
    split <;> simp
  | cons c rest =>
    have hword : Scanner.endsWord c = true := (endsWord_iff c).mpr (hend c rfl)
    rw [scanFrom_cons, scanFrom_cons, Scanner.step_of_endsWord src hmode hword]

/-! ### Reading an item -/

/-- Reading an unquoted atom that is as long as it can be. -/
theorem scanFrom_word (hmode : s.mode = .between) {first : Char} {cs rest : List Char}
    (hfirst : ¬Separates first) (hcs : ∀ c ∈ cs, ¬Separates c) (hcolon : ':' ∉ cs.dropLast)
    (hend : cs.getLast? = some ':' ∨ ∀ c ∈ rest.head?, Separates c) :
    scanFrom src s (first :: cs ++ rest)
      = scanFrom src (s.after src (.word first cs hfirst hcs hcolon) s.groups) rest := by
  have hopen := Scanner.step_of_not_separates src hmode hfirst
  have hinside : (s.step src first).mode = .word s.mark [first] := by rw [hopen]
  rw [List.cons_append, scanFrom_cons, scanFrom_append]
  obtain hnone | ⟨front, rfl, hfront⟩ := colon_cases hcolon
  · have hseparates : ∀ c ∈ rest.head?, Separates c :=
      hend.resolve_left fun hlast => hnone (List.mem_of_getLast? hlast)
    rw [Scanner.foldl_word_chars src hinside hcs hnone, scanFrom_of_word rfl hseparates, hopen]
    simp [Scanner.after, Item.chars, Item.events, Scanner.between, Scanner.sendAtom, Scanner.send,
      hmode]
  · -- the colon is written with the atom, which ends there
    have hcs' : ∀ c ∈ front, ¬Separates c := fun c hc => hcs c (List.mem_append_left _ hc)
    rw [List.foldl_append, Scanner.foldl_word_chars src hinside hcs' hfront, List.foldl_cons,
      List.foldl_nil, Scanner.step_colon src rfl, hopen]
    simp [Scanner.after, Item.chars, Item.events, hmode]

/-- **Reading an item** from between items, when it is as long as it can be and may stand there. -/
theorem scanFrom_item (hmode : s.mode = .between) (it : Item) {rest : List Char}
    {groups : List Delim} (hend : it.EndsBefore rest.head?)
    (hnest : it.nest src.limit s.groups = some groups) :
    scanFrom src s (it.chars ++ rest) = scanFrom src (s.after src it groups) rest := by
  -- one case for each kind of item; only brackets change the groups that are open
  cases it with
  | blank c hc =>
    obtain rfl := Option.some.inj hnest
    rw [Item.chars, List.singleton_append, scanFrom_cons, Scanner.step_of_isBlank src hmode hc]
    rfl
  | comment text htext =>
    obtain rfl := Option.some.inj hnest
    have hopen := Scanner.step_semicolon src hmode
    have hinside : (s.step src ';').mode = .comment s.mark [] := by rw [hopen]
    rw [Item.chars, List.cons_append, scanFrom_cons, scanFrom_append,
      Scanner.foldl_comment_text src hinside htext, scanFrom_of_comment rfl hend, hopen]
    simp [Scanner.after, Item.chars, Item.events, Scanner.between, Scanner.sendComment,
      Scanner.send, hmode]
  | quoted pieces =>
    obtain rfl := Option.some.inj hnest
    have hopen := Scanner.step_quote src hmode
    have hinside : (s.step src '"').mode = .quoted s.mark [] false := by rw [hopen]
    rw [Item.chars, List.cons_append, scanFrom_cons, List.append_assoc, scanFrom_append,
      Scanner.foldl_pieces src hinside, hopen, List.singleton_append, scanFrom_cons]
    simp [Scanner.step, Scanner.read, Scanner.after, Item.chars, Item.events, Scanner.between,
      Scanner.sendAtom, Scanner.send, hmode]
  | word first cs hfirst hcs hcolon =>
    obtain rfl := Option.some.inj hnest
    exact scanFrom_word hmode hfirst hcs hcolon hend
  | opening d =>
    simp only [Item.nest, Option.ite_none_left_eq_some, Option.some.injEq] at hnest
    obtain ⟨hroom, rfl⟩ := hnest
    rw [Item.chars, List.singleton_append, scanFrom_cons,
      Scanner.step_opening src hmode (Nat.lt_of_not_le hroom)]
    rfl
  | closing d =>
    cases hgroups : s.groups with
    | nil => simp [Item.nest, hgroups] at hnest
    | cons g gs =>
      simp only [Item.nest, hgroups, Option.ite_none_right_eq_some, Option.some.injEq] at hnest
      obtain ⟨rfl, rfl⟩ := hnest
      rw [Item.chars, List.singleton_append, scanFrom_cons, Scanner.step_closing src hmode hgroups]
      rfl

/-! ### Every text starts with an item -/

/-- Whether what follows an opening quote is all part of the atom, which is not terminated: the last
    character may be a backslash that takes nothing along. -/
def Unterminated (cs : List Char) : Prop :=
  ∃ pieces : List Piece, cs = pieces.flatMap Piece.chars ∨
    cs = pieces.flatMap Piece.chars ++ ['\\']

/-- Whether what follows an opening quote goes on to a closing one. -/
def Terminated (cs : List Char) : Prop :=
  ∃ (pieces : List Piece) (rest : List Char), cs = pieces.flatMap Piece.chars ++ '"' :: rest

/-- A piece in front of a terminated string leaves it terminated, -/
theorem Terminated.cons {cs : List Char} (p : Piece) (h : Terminated cs) :
    Terminated (p.chars ++ cs) := by
  obtain ⟨pieces, rest, rfl⟩ := h
  exact ⟨p :: pieces, rest, by rw [List.flatMap_cons, List.append_assoc]⟩

/-- and one in front of an unterminated string leaves it so. -/
theorem Unterminated.cons {cs : List Char} (p : Piece) (h : Unterminated cs) :
    Unterminated (p.chars ++ cs) := by
  obtain ⟨pieces, rfl | rfl⟩ := h
  · exact ⟨p :: pieces, .inl (by rw [List.flatMap_cons])⟩
  · exact ⟨p :: pieces, .inr (by rw [List.flatMap_cons, List.append_assoc])⟩

/-- After an opening quote the atom is terminated, or all that follows is part of it. -/
theorem terminated_or_unterminated : ∀ cs : List Char, Terminated cs ∨ Unterminated cs
  | [] => .inr ⟨[], .inl rfl⟩
  | c :: cs => by
    by_cases hquote : c = '"'
    · exact .inl ⟨[], cs, by rw [hquote]; rfl⟩
    by_cases hback : c = '\\'
    · -- a backslash takes the next character along, if there is one
      subst hback
      match cs with
      | [] => exact .inr ⟨[], .inr rfl⟩
      | c :: cs =>
        exact (terminated_or_unterminated cs).imp (.cons (.escaped c)) (.cons (.escaped c))
    · exact (terminated_or_unterminated cs).imp (.cons (.plain c ⟨hquote, hback⟩))
        (.cons (.plain c ⟨hquote, hback⟩))

/-- What follows a semicolon is the text of a comment as far as its line goes. -/
theorem exists_line (cs : List Char) :
    ∃ text rest, cs = text ++ rest ∧ ('\n' ∉ text ∧ '\r' ∉ text) ∧
      ∀ c ∈ rest.head?, c = '\n' ∨ c = '\r' := by
  induction cs with
  | nil => exact ⟨[], [], rfl, by simp, by simp⟩
  | cons c cs ih =>
    by_cases hc : c = '\n' ∨ c = '\r'
    · exact ⟨[], c :: cs, rfl, by simp, by simpa using hc⟩
    · obtain ⟨text, rest, rfl, htext, hend⟩ := ih
      rw [not_or] at hc
      refine ⟨c :: text, rest, rfl, ?_, hend⟩
      simpa [Ne.symm hc.1, Ne.symm hc.2] using htext

/-- What goes on an unquoted atom is as long as it can be. -/
theorem exists_word_rest (cs : List Char) :
    ∃ front rest, cs = front ++ rest ∧ (∀ c ∈ front, ¬Separates c) ∧ ':' ∉ front.dropLast ∧
      (front.getLast? = some ':' ∨ ∀ c ∈ rest.head?, Separates c) := by
  induction cs with
  | nil => exact ⟨[], [], rfl, by simp, by simp, .inr (by simp)⟩
  | cons c cs ih =>
    -- a word ends in front of a separator, and behind its first colon
    by_cases hc : Separates c
    · exact ⟨[], c :: cs, rfl, by simp, by simp, .inr (by simpa using hc)⟩
    · by_cases hcolon : c = ':'
      · subst hcolon
        exact ⟨[':'], cs, rfl, by simpa using hc, by simp, .inl rfl⟩
      · obtain ⟨front, rest, rfl, hfront, hcolons, hend⟩ := ih
        refine ⟨c :: front, rest, rfl, ?_, ?_, ?_⟩
        · simpa using ⟨hc, hfront⟩
        · cases front with
          | nil => simp
          | cons c' front =>
            rw [List.dropLast_cons_cons, List.mem_cons, not_or]
            exact ⟨Ne.symm hcolon, hcolons⟩
        · -- the front grows at its start, so what it ends with changes only if it was empty
          cases front with
          | nil => exact hend.imp (by simp) id
          | cons c' front => rwa [List.getLast?_cons_cons]

/-- **Every text starts with an item** that is as long as it can be, unless it starts with a quoted
    atom that is not terminated. -/
theorem exists_item (c : Char) (cs : List Char) :
    (∃ it rest, c :: cs = Item.chars it ++ rest ∧ it.EndsBefore rest.head?) ∨
      c = '"' ∧ Unterminated cs := by
  by_cases hseparates : Separates c
  · obtain hblank | rfl | rfl | rfl | rfl | rfl | rfl := hseparates
    · exact .inl ⟨.blank c hblank, cs, rfl, trivial⟩
    · exact .inl ⟨.opening .paren, cs, rfl, trivial⟩
    · exact .inl ⟨.closing .paren, cs, rfl, trivial⟩
    · exact .inl ⟨.opening .bracket, cs, rfl, trivial⟩
    · exact .inl ⟨.closing .bracket, cs, rfl, trivial⟩
    · obtain ⟨text, rest, rfl, htext, hend⟩ := exists_line cs
      exact .inl ⟨.comment text htext, rest, rfl, hend⟩
    · obtain ⟨pieces, rest, rfl⟩ | hnot := terminated_or_unterminated cs
      · exact .inl ⟨.quoted pieces, rest, by simp [Item.chars], trivial⟩
      · exact .inr ⟨rfl, hnot⟩
  · obtain ⟨front, rest, rfl, hfront, hcolon, hend⟩ := exists_word_rest cs
    exact .inl ⟨.word c front hseparates hfront hcolon, rest, rfl, hend⟩

end Formwork
