import Formwork.Proofs.Scan.Printable
import Formwork.Proofs.Scan.Reading

namespace Formwork

/-!
# Reading back what was printed

Scanning the printed form of printable nodes gives the same nodes and no report. An unquoted atom is
still open when its last character has been read, and the next character — a blank or a bracket —
ends it, so what a text leaves behind is said of the *settled* scanner.

* `Scanner.Wrote` — the scanner has read the printed form of nodes.
* `Scanner.wrote_chars` — reading the printed form of a node.
* `scan_printed` — the round trip, and that every scan can make it.
-/

/-! ### Sameness -/

namespace Node

mutual

theorem same_plain : ∀ n m : Node, same n.plain m = same n m
  | .atom _, .atom _ | .atom _, .comment _ | .atom _, .group .. => rfl
  | .comment _, .atom _ | .comment _, .comment _ | .comment _, .group .. => rfl
  | .group .., .atom _ | .group .., .comment _ => rfl
  | .group d cs _ _, .group d' cs' _ _ => by rw [plain, same, same, sameAll_plainAll cs cs']

/-- How atoms were quoted does not matter for sameness. -/
theorem sameAll_plainAll : ∀ ns ms : List Node, sameAll (plainAll ns) ms = sameAll ns ms
  | [], [] | [], _ :: _ | _ :: _, [] => rfl
  | n :: ns, m :: ms => by rw [plainAll, sameAll, sameAll, same_plain n m, sameAll_plainAll ns ms]

end

theorem sameAll_append {ns ns' ms ms' : List Node} (h : sameAll ns ns' = true)
    (hm : sameAll ms ms' = true) : sameAll (ns ++ ms) (ns' ++ ms') = true := by
  induction ns generalizing ns' with
  | nil =>
    cases ns' with
    | nil => exact hm
    | cons n' ns' => exact absurd h (by simp [sameAll])
  | cons n ns ih =>
    cases ns' with
    | nil => exact absurd h (by simp [sameAll])
    | cons n' ns' =>
      simp only [sameAll, Bool.and_eq_true] at h
      simp only [List.cons_append, sameAll, Bool.and_eq_true]
      exact ⟨h.1, ih h.2⟩

end Node

namespace Scanner

variable {src : Source} {s t : Scanner}

/-! ### Settled scanners -/

/-- Whether the scanner is between atoms or in an unquoted atom. -/
def Loose (s : Scanner) : Prop := s.mode = .between ∨ ∃ start chars, s.mode = .word start chars

/-- The scanner when the unquoted atom that it may be in has ended. -/
def settle (src : Source) (s : Scanner) : Scanner := (s.flush src).between

theorem settle_of_between (h : s.mode = .between) : s.settle src = s := by
  cases s
  cases h
  rfl

@[simp] theorem mode_settle : (s.settle src).mode = .between := rfl

@[simp] theorem mark_settle : (s.settle src).mark = s.mark := by
  cases h : s.mode <;> simp [settle, flush, h, Scanner.between, sendAtom, sendComment, send, report]

@[simp] theorem groups_settle : (s.settle src).groups = s.groups := by
  cases h : s.mode <;> simp [settle, flush, h, Scanner.between, sendAtom, sendComment, send, report]

/-- A character that ends an unquoted atom finds the scanner as if the atom had ended before. -/
theorem step_settle (h : s.Loose) {c : Char} (hc : endsWord c = true) :
    s.step src c = (s.settle src).step src c := by
  obtain hmode | ⟨start, chars, hmode⟩ := h
  · rw [settle_of_between hmode]
  · have hsettle : s.settle src = (s.sendAtom src start chars).between := by
      rw [settle, flush, hmode]
    rw [hsettle, step_of_endsWord src hmode hc]

/-- A space or a line feed ends an unquoted atom, and nothing else. -/
theorem step_blank (h : s.Loose) {c : Char} (hc : c = ' ' ∨ c = '\n') :
    s.step src c = { s.settle src with mark := s.mark.advance c } := by
  have hblank : Text.isBlank c = true := by
    obtain rfl | rfl := hc <;> decide
  have hend : endsWord c = true := (endsWord_iff c).mpr (.inl hblank)
  rw [step_settle h hend, step_of_isBlank src mode_settle hblank, mark_settle]

/-- Whether the scanner, between atoms at first, has read the printed form of nodes like these. -/
structure Wrote (src : Source) (s t : Scanner) (ns : List Node) : Prop where
  loose : t.Loose
  events : ∃ ms, Node.sameAll ms ns = true ∧
    t.settle src
      = { s with
          mark := t.mark
          mode := .between
          events := (Node.eventsAll ms).reverse ++ s.events }

namespace Wrote

variable {ns ms : List Node}

/-- The open groups are the same as before. -/
theorem groups_eq (h : Wrote src s t ns) : t.groups = s.groups := by
  obtain ⟨ms, -, ht⟩ := h.events
  have hsame : (t.settle src).groups = t.groups := groups_settle
  rw [← hsame, ht]

theorem refl (h : s.mode = .between) : Wrote src s s [] :=
  ⟨.inl h, [], rfl, by cases s; cases h; rfl⟩

/-- Reading further nodes from between atoms. -/
theorem append (h : Wrote src s t ns) (hmode : t.mode = .between) {u : Scanner}
    (hu : Wrote src t u ms) : Wrote src s u (ns ++ ms) := by
  obtain ⟨ks, hks, ht⟩ := h.events
  obtain ⟨ks', hks', hu'⟩ := hu.events
  rw [settle_of_between hmode] at ht
  refine ⟨hu.loose, ks ++ ks', Node.sameAll_append hks hks', ?_⟩
  rw [hu', ht]
  simp

/-- Reading a space or a line feed after nodes. -/
theorem step_blank (h : Wrote src s t ns) {c : Char} (hc : c = ' ' ∨ c = '\n') :
    (t.step src c).mode = .between ∧ Wrote src s (t.step src c) ns := by
  have hstep : t.step src c = _ := Scanner.step_blank h.loose hc
  have hmode : (t.step src c).mode = .between := by rw [hstep]; rfl
  obtain ⟨ms, hms, ht⟩ := h.events
  refine ⟨hmode, .inl hmode, ms, hms, ?_⟩
  rw [settle_of_between hmode, hstep, ht]

end Wrote

/-! ### Atoms and comments -/

variable (src)

omit src in
/-- A character that needs no quotes does not separate atoms. -/
theorem not_separates_of_needsQuotesAt {c : Char} (h : needsQuotesAt c = false) :
    ¬Separates c := by
  simp only [needsQuotesAt, List.mem_cons, List.not_mem_nil, or_false, Bool.or_eq_false_iff,
    decide_eq_false_iff_not, not_or] at h
  simp only [Separates, h, or_false, Bool.false_eq_true, not_false_eq_true]

/-- Reading what can stand in an unquoted atom; a colon may only come last. -/
theorem foldl_word {start : Mark} {acc cs : List Char} (hmode : s.mode = .word start acc)
    (hcs : ∀ c ∈ cs, needsQuotesAt c = false) (hcolon : ':' ∉ cs.dropLast) :
    (cs.foldl (step src) s).Loose ∧
      (cs.foldl (step src) s).settle src
        = { s with
            mark := (cs.foldl (step src) s).mark
            mode := .between
            events := .atom (String.ofList (acc.reverse ++ cs)) :: .locate (src.locate start) ::
              s.events } := by
  have hcs : ∀ c ∈ cs, ¬Separates c := fun c hc => not_separates_of_needsQuotesAt (hcs c hc)
  obtain hnone | ⟨front, rfl, hfront⟩ := colon_cases hcolon
  · rw [foldl_word_chars src hmode hcs hnone]
    refine ⟨.inr ⟨start, _, rfl⟩, ?_⟩
    simp [settle, flush, sendAtom, send, Scanner.between]
  · -- the colon is written with the atom, and nothing comes after it
    have hcs' : ∀ c ∈ front, ¬Separates c := fun c hc => hcs c (List.mem_append_left _ hc)
    rw [List.foldl_append, foldl_word_chars src hmode hcs' hfront, List.foldl_cons,
      List.foldl_nil, step_colon src rfl, settle_of_between rfl]
    exact ⟨.inl rfl, by simp⟩

omit src in
/-- Escaping writes each character of a quoted atom as it is or after a backslash. -/
theorem exists_pieces (cs : List Char) :
    ∃ pieces : List Piece,
      escape cs = pieces.flatMap Piece.chars ∧ pieces.map Piece.value = cs := by
  induction cs with
  | nil => exact ⟨[], rfl, rfl⟩
  | cons c cs ih =>
    obtain ⟨pieces, hchars, hvalues⟩ := ih
    rw [escape, List.flatMap_cons, ← escape, hchars]
    by_cases hc : c = '"' ∨ c = '\\'
    · refine ⟨.escaped c :: pieces, ?_, ?_⟩
      · rw [escapeChar, if_pos hc, List.flatMap_cons, Piece.chars]
      · rw [List.map_cons, Piece.value, hvalues]
    · refine ⟨.plain c (not_or.mp hc) :: pieces, ?_, ?_⟩
      · rw [escapeChar, if_neg hc, List.flatMap_cons, Piece.chars]
      · rw [List.map_cons, Piece.value, hvalues]

/-- Reading the inside of a quoted atom. -/
theorem foldl_escape {start : Mark} {acc : List Char} (hmode : s.mode = .quoted start acc false)
    (cs : List Char) :
    ∃ mark, (escape cs).foldl (step src) s
      = { s with mark, mode := .quoted start (cs.reverse ++ acc) false } := by
  obtain ⟨pieces, hchars, rfl⟩ := exists_pieces cs
  rw [hchars]
  exact ⟨_, foldl_pieces src hmode pieces⟩

/-- Reading the printed form of an atom. -/
theorem wrote_atom (hmode : s.mode = .between) {a : Atom}
    (ha : a.quoted = true ∨ a.quoted = (Atom.plain a.value a.location).quoted) :
    Wrote src s (a.chars.foldl (step src) s) [.atom a] := by
  have hevents : ∀ l : Location, Node.sameAll [.atom (Atom.plain a.value l)] [.atom a] = true := by
    simp [Node.sameAll, Node.same, Atom.plain]
  cases hq : a.quoted with
  | true =>
    -- the closing quote leaves the scanner between atoms
    have hopen := step_quote src hmode
    have hmode' : (s.step src '"').mode = .quoted s.mark [] false := by rw [hopen]
    obtain ⟨mark, hinside⟩ := foldl_escape src hmode' a.value.toList
    rw [Atom.chars, if_pos hq, List.foldl_cons, List.foldl_append, hinside, List.foldl_cons,
      List.foldl_nil]
    refine ⟨.inl (by simp [step, read, Scanner.between, sendAtom, send]),
      _, hevents (src.locate s.mark), ?_⟩
    rw [settle_of_between (by simp [step, read, Scanner.between, sendAtom, send]), hopen]
    simp [step, read, Scanner.between, sendAtom, send, Node.eventsAll, Node.events, Atom.plain]
  | false =>
    -- without quotes the value is not empty, and the atom is still open at its end
    have hplain : needsQuotes a.value.toList = false := by
      obtain ha | ha := ha
      · exact absurd (ha.symm.trans hq) (by simp)
      · exact ha.symm.trans hq
    rw [Atom.chars, if_neg (by simp [hq])]
    cases hv : a.value.toList with
    | nil => exact absurd hplain (by simp [hv, needsQuotes])
    | cons c cs =>
      simp only [hv, needsQuotes, Bool.or_eq_false_iff, List.any_eq_false, Bool.not_eq_true,
        List.isEmpty_cons, true_and] at hplain
      obtain ⟨hcolon, hcs⟩ := hplain
      have hcolon : ':' ∉ (c :: cs).dropLast := by simpa using hcolon
      have hfirst := step_of_not_separates src hmode
        (not_separates_of_needsQuotesAt (hcs c (List.mem_cons_self ..)))
      have hrest : ':' ∉ cs.dropLast := by
        cases cs with
        | nil => simp
        | cons c' cs => exact fun hmem => hcolon (List.mem_cons_of_mem _ hmem)
      have hmode' : (s.step src c).mode = .word s.mark [c] := by rw [hfirst]
      obtain ⟨hloose, hsettle⟩ := foldl_word src hmode'
        (fun c' hc' => hcs c' (List.mem_cons_of_mem _ hc')) hrest
      refine ⟨hloose, _, hevents (src.locate s.mark), ?_⟩
      rw [List.foldl_cons, hsettle, hfirst]
      have hvalue : String.ofList (c :: cs) = a.value := by rw [← hv, String.ofList_toList]
      simp [Node.eventsAll, Node.events, Atom.plain, hvalue]

/-- Reading the printed form of a comment. -/
theorem wrote_comment (hmode : s.mode = .between) {c : Comment}
    (hlf : '\n' ∉ c.text.toList) (hcr : '\r' ∉ c.text.toList) :
    ((Node.comment c).chars.foldl (step src) s).mode = .between ∧
      Wrote src s ((Node.comment c).chars.foldl (step src) s) [.comment c] := by
  have hopen := step_semicolon src hmode
  have hmode' : (s.step src ';').mode = .comment s.mark [] := by rw [hopen]
  have htext := foldl_comment_text src hmode' ⟨hlf, hcr⟩
  generalize c.text.toList.foldl Mark.advance (s.step src ';').mark = mark at htext
  rw [Node.chars, List.foldl_cons, List.foldl_append, htext, List.foldl_cons, List.foldl_nil]
  have hend : (step src { s.step src ';' with
      mark, mode := .comment s.mark (c.text.toList.reverse ++ []) } '\n').mode = .between := by
    simp [step, read, Scanner.between, sendComment, send]
  refine ⟨hend, .inl hend, [.comment { c with location := src.locate s.mark }],
    by simp [Node.sameAll, Node.same], ?_⟩
  rw [settle_of_between hend, hopen]
  simp [step, read, Scanner.between, sendComment, send, Node.eventsAll, Node.events]

/-! ### Groups -/

/-- The bracket that closes the innermost group ends an unquoted atom too. -/
theorem Loose.step_closing (h : s.Loose) {d : Delim} {gs : List Delim} (hg : s.groups = d :: gs) :
    s.step src d.closing
      = { s.settle src with
          mark := s.mark.advance d.closing
          groups := gs
          events := .closing d :: .locate (src.locate s.mark) :: (s.settle src).events } := by
  have hend : endsWord d.closing = true := by cases d <;> decide
  rw [step_settle h hend, Scanner.step_closing src mode_settle (groups_settle.trans hg),
    mark_settle]

mutual

/-- Reading the printed form of a node. -/
theorem wrote_chars : ∀ (n : Node) (s : Scanner), s.mode = .between →
    n.Printable (src.limit - s.groups.length) → Wrote src s (n.chars.foldl (step src) s) [n]
  | .atom _, _, hmode, hn => wrote_atom src hmode hn
  | .comment _, _, hmode, hn => (wrote_comment src hmode hn.1 hn.2).2
  | .group d cs l stop, s, hmode, hn => by
    obtain ⟨hroom, hcs⟩ := hn
    -- inside the brackets one group more is open, and one less may be opened
    have hopen := step_opening src hmode (Nat.lt_of_sub_pos hroom) d
    have hinside := wrote_charsAll cs (s.step src d.opening) (by rw [hopen]; exact hmode)
      (by rw [hopen]; rwa [Nat.sub_sub] at hcs)
    rw [Node.chars, List.foldl_cons, List.foldl_append, List.foldl_cons, List.foldl_nil]
    generalize (Node.charsAll cs).foldl (step src) (s.step src d.opening) = t at hinside
    have hgroups : t.groups = d :: s.groups := by rw [hinside.groups_eq, hopen]
    obtain ⟨ms, hms, hsettle⟩ := hinside.events
    have hclose := hinside.loose.step_closing src hgroups
    have hend : (t.step src d.closing).mode = .between := by rw [hclose]; rfl
    refine ⟨.inl hend, [.group d ms (src.locate s.mark) (src.locate t.mark)],
      by simpa [Node.sameAll, Node.same] using hms, ?_⟩
    -- the closing bracket ends an atom that the last child may be, and then closes the group
    rw [settle_of_between hend, hclose, hsettle, hopen]
    simp [Node.eventsAll, Node.events]

/-- Reading the printed form of nodes. -/
theorem wrote_charsAll : ∀ (ns : List Node) (s : Scanner), s.mode = .between →
    Node.PrintableAll (src.limit - s.groups.length) ns →
      Wrote src s ((Node.charsAll ns).foldl (step src) s) ns
  | [], _, hmode, _ => Wrote.refl hmode
  | n :: ns, s, hmode, hns => by
    rw [Node.charsAll, List.foldl_append]
    exact wrote_charsAfter ns (wrote_chars n s hmode hns.1) hns.2

/-- Reading the printed form of further nodes. -/
theorem wrote_charsAfter : ∀ (ns : List Node) {s t : Scanner} {ks : List Node},
    Wrote src s t ks → Node.PrintableAll (src.limit - s.groups.length) ns →
      Wrote src s ((Node.charsAfter ns).foldl (step src) t) (ks ++ ns)
  | [], _, _, ks, h, _ => by rwa [List.append_nil]
  | n :: ns, s, t, ks, h, hns => by
    obtain ⟨hmode, hspace⟩ := h.step_blank (.inl rfl)
    have hn := wrote_chars n (t.step src ' ') hmode (by rw [hspace.groups_eq]; exact hns.1)
    have hrest := wrote_charsAfter ns (hspace.append hmode hn) hns.2
    rw [Node.charsAfter, List.foldl_cons, List.foldl_append]
    rwa [List.append_assoc] at hrest

end

/-- Reading a node that is printed on a line of its own. -/
theorem wrote_line (hmode : s.mode = .between) {n : Node}
    (hn : n.Printable (src.limit - s.groups.length)) :
    (Node.lineChars [n] |>.foldl (step src) s).mode = .between ∧
      Wrote src s (Node.lineChars [n] |>.foldl (step src) s) [n] := by
  have hline : Node.lineChars [n] = if n.isComment then n.chars else n.chars ++ ['\n'] := by
    simp [Node.lineChars]
  cases hc : n.isComment with
  | true =>
    rw [hline, if_pos hc]
    obtain ⟨c, rfl⟩ : ∃ c, n = .comment c := by
      cases n <;> simp [Node.isComment] at hc ⊢
    exact wrote_comment src hmode hn.1 hn.2
  | false =>
    rw [hline, if_neg (by simp [hc]), List.foldl_append, List.foldl_cons, List.foldl_nil]
    exact (wrote_chars src n s hmode hn).step_blank (.inr rfl)

/-- Reading nodes that are printed one to a line. -/
theorem wrote_lineChars (ns : List Node) (hmode : s.mode = .between)
    (hns : Node.PrintableAll (src.limit - s.groups.length) ns) :
    Wrote src s ((Node.lineChars ns).foldl (step src) s) ns := by
  induction ns generalizing s with
  | nil => exact Wrote.refl hmode
  | cons n ns ih =>
    have hsplit : Node.lineChars (n :: ns) = Node.lineChars [n] ++ Node.lineChars ns := by
      simp [Node.lineChars]
    obtain ⟨hmode', hn⟩ := wrote_line src hmode hns.1
    rw [hsplit, List.foldl_append]
    exact hn.append hmode' (ih hmode' (by rw [hn.groups_eq]; exact hns.2))

/-- The end of a text that was the printed form of nodes. -/
theorem finish_of_wrote {ns : List Node} (h : Wrote src {} t ns) :
    (t.finish src).reports = [] ∧
      ∃ ms, Node.sameAll ms ns = true ∧ (t.finish src).events.reverse = Node.eventsAll ms := by
  obtain ⟨ms, hms, ht⟩ := h.events
  have hfinish : t.finish src = t.flush src := if_pos (.inr h.groups_eq)
  have hreports : (t.flush src).reports = [] := congrArg Scanner.reports ht
  have hevents : (t.flush src).events = (Node.eventsAll ms).reverse ++ [] :=
    congrArg Scanner.events ht
  rw [hfinish]
  exact ⟨by rw [hreports], ms, hms, by rw [hevents]; simp⟩

end Scanner

/-! ### Whole texts -/

/-- Characters that write nodes scan as these nodes. -/
theorem scan_of_wrote {src : Source} {text : String} {ns : List Node}
    (h : Scanner.Wrote src {} (text.toList.foldl (Scanner.step src) {}) ns) :
    (scan src text).reports = [] ∧ Node.sameAll (scan src text).nodes ns = true := by
  obtain ⟨hreports, ms, hms, hevents⟩ := Scanner.finish_of_wrote src h
  refine ⟨?_, ?_⟩
  · rw [scan, scanChars, hreports, List.reverse_nil]
  · rw [scan, scanChars, Scanned.nodes, hevents, Builder.build_eventsAll, Node.sameAll_plainAll,
      hms]

/-- Printable nodes can be read back, separated by spaces. -/
theorem scan_textAll {src : Source} {ns : List Node} (h : Node.PrintableAll src.limit ns) :
    (scan src (Node.textAll ns)).reports = [] ∧
      Node.sameAll (scan src (Node.textAll ns)).nodes ns = true := by
  refine scan_of_wrote ?_
  rw [Node.textAll, String.toList_ofList]
  exact Scanner.wrote_charsAll src ns {} rfl h

/-- Printable nodes can be read back, one to a line. -/
theorem scan_lines {src : Source} {ns : List Node} (h : Node.PrintableAll src.limit ns) :
    (scan src (Node.lines ns)).reports = [] ∧
      Node.sameAll (scan src (Node.lines ns)).nodes ns = true := by
  refine scan_of_wrote ?_
  rw [Node.lines, String.toList_ofList]
  exact Scanner.wrote_lineChars src ns rfl h

/-- **The round trip.** Printable nodes are read back as they are and without a report, in both
    printed forms. The nodes of every scan are printable, so they make the round trip, whatever was
    wrong with the text. -/
theorem scan_printed (src : Source) :
    (∀ ns, Node.PrintableAll src.limit ns →
      ((scan src (Node.textAll ns)).reports = [] ∧
        Node.sameAll (scan src (Node.textAll ns)).nodes ns = true) ∧
      (scan src (Node.lines ns)).reports = [] ∧
        Node.sameAll (scan src (Node.lines ns)).nodes ns = true) ∧
    ∀ text, Node.PrintableAll src.limit (scan src text).nodes ∧
      ∀ ns, ns = (scan src text).nodes →
        Node.sameAll (scan src (Node.textAll ns)).nodes ns = true ∧
        Node.sameAll (scan src (Node.lines ns)).nodes ns = true := by
  refine ⟨fun ns hns => ⟨scan_textAll hns, scan_lines hns⟩, fun text => ?_⟩
  have hns := printableAll_nodes src text
  refine ⟨hns, ?_⟩
  rintro ns rfl
  exact ⟨(scan_textAll hns).2, (scan_lines hns).2⟩

/-- A quoted atom, and a keyword behind a comment in a group. -/
theorem scan_printed_mixed :
    ∃ ns, ns = [.atom ⟨"a \\ \"b", true, .nowhere⟩,
        .group .bracket [.comment ⟨" c", .nowhere⟩, .atom ⟨"key:", false, .nowhere⟩]
          .nowhere .nowhere] ∧
      Node.PrintableAll 1 ns ∧
      (scan { origin := "text", limit := 1 } (Node.textAll ns)).reports = [] ∧
      Node.sameAll (scan { origin := "text", limit := 1 } (Node.textAll ns)).nodes ns = true := by
  refine ⟨_, rfl, ?_, ?_⟩
  · exact ⟨.inl rfl, ⟨by decide, ⟨by decide, by decide⟩, .inr rfl, trivial⟩, trivial⟩
  · refine ((scan_printed { origin := "text", limit := 1 }).1 _ ?_).1
    exact ⟨.inl rfl, ⟨by decide, ⟨by decide, by decide⟩, .inr rfl, trivial⟩, trivial⟩

end Formwork
