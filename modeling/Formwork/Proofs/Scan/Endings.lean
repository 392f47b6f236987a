import Formwork.Proofs.Scan.Items

namespace Formwork

/-!
# How every scan goes

Whatever a text is, the scanner reads items of it, one after another, until the text is over, or a
bracket may not stand where it does, or a quoted atom is not terminated. What a scan writes and what
it reports can be read off the items and the way they end, also when the text is broken.

* `Item.SplitsBefore` — a text starts with some items.
* `Problem.Refuses` — why a bracket may not stand where it does.
* `Ending`, `Reading` — what comes after the items, and how a whole text is read.
* `exists_reading` — every text is read in some way.
* `Reading.scanFrom_eq`, `Reading.scan_eq` — what is written and reported then.
-/

namespace Item

/-! ### Items at the start of a text -/

/-- Whether a text is the sequence of some items, each as long as it can be, and then a rest. -/
inductive SplitsBefore (rest : List Char) : List Char → List Item → Prop where
  | nil : SplitsBefore rest rest []
  | cons (it : Item) {cs : List Char} {items : List Item} (hend : it.EndsBefore cs.head?)
      (h : SplitsBefore rest cs items) : SplitsBefore rest (it.chars ++ cs) (it :: items)

namespace SplitsBefore

variable {rest cs : List Char} {items : List Item}

theorem eq_append (h : SplitsBefore rest cs items) : cs = items.flatMap chars ++ rest := by
  induction h with
  | nil => rfl
  | cons it _ _ ih => rw [List.flatMap_cons, List.append_assoc, ← ih]

/-- What comes after the items counts by its first character only. -/
theorem change_rest (h : SplitsBefore rest cs items) {rest' : List Char}
    (hnext : ∀ it : Item, it.EndsBefore rest.head? → it.EndsBefore rest'.head?) :
    SplitsBefore rest' (items.flatMap chars ++ rest') items := by
  induction h with
  | nil => exact .nil
  | @cons it cs items hend h ih =>
    rw [List.flatMap_cons, List.append_assoc]
    refine .cons it ?_ ih
    have hcs := h.eq_append
    cases hchars : items.flatMap chars with
    | nil =>
      -- no item is left, so the rest comes right after this one
      rw [hchars, List.nil_append] at hcs
      rw [List.nil_append]
      exact hnext it (hcs ▸ hend)
    | cons c cs' =>
      rw [hcs, hchars] at hend
      exact hend

end SplitsBefore

end Item

/-! ### Brackets that are refused -/

/-- Whether a bracket may not stand where some groups are open, and what is wrong with it. -/
inductive Problem.Refuses (limit : Nat) : List Delim → Char → Problem → Prop where
  | nestingTooDeep {groups : List Delim} (d : Delim) (h : limit ≤ groups.length) :
      Refuses limit groups d.opening (.nestingTooDeep limit)
  | unbalancedClose (d : Delim) : Refuses limit [] d.closing (.unbalancedClose d.closing)
  | mismatchedClose {g : Delim} {gs : List Delim} (d : Delim) (h : g ≠ d) :
      Refuses limit (g :: gs) d.closing (.mismatchedClose g.closing d.closing)

/-- An item that may not stand where it does is a bracket, and something is wrong with it. -/
theorem Item.exists_refuses {limit : Nat} {groups : List Delim} {it : Item}
    (h : it.nest limit groups = none) :
    ∃ c p, it.chars = [c] ∧ Problem.Refuses limit groups c p := by
  cases it with
  | opening d =>
    simp only [nest, ite_eq_left_iff, reduceCtorEq, imp_false, Decidable.not_not] at h
    exact ⟨d.opening, _, rfl, .nestingTooDeep d h⟩
  | closing d =>
    cases groups with
    | nil => exact ⟨d.closing, _, rfl, .unbalancedClose d⟩
    | cons g gs =>
      have hne : g ≠ d := by
        rintro rfl
        simp [nest] at h
      exact ⟨d.closing, _, rfl, .mismatchedClose d hne⟩
  | blank => simp [nest] at h
  | comment => simp [nest] at h
  | quoted => simp [nest] at h
  | word => simp [nest] at h

/-! ### Endings -/

/-- What comes after the items of a text. -/
inductive Ending where
  /-- The text is over. -/
  | complete
  /-- A bracket may not stand where it does, and nothing after it is read. -/
  | refused (bracket : Char) (problem : Problem) (after : List Char)
  /-- A quoted atom is not terminated. Its last backslash may have nothing to take along. -/
  | unterminated (pieces : List Piece) (dangling : Bool)

namespace Ending

/-- How an ending is written. -/
def chars : Ending → List Char
  | complete => []
  | refused c _ after => c :: after
  | unterminated pieces dangling =>
    '"' :: (pieces.flatMap Piece.chars ++ if dangling then ['\\'] else [])

/-- Whether a text may end so where some groups are open. -/
def Fits (limit : Nat) (groups : List Delim) : Ending → Prop
  | refused c p _ => p.Refuses limit groups c
  | _ => True

/-- What an ending at a location means. -/
def events (l : Location) : Ending → List Event
  | unterminated pieces _ => [.locate l, .atom (String.ofList (pieces.map Piece.value))]
  | _ => []

/-- The report of the groups that are open at the end of a text, which is at a mark. -/
def unclosed (src : Source) (groups : List Delim) (m : Mark) : List Report :=
  if groups = [] then [] else [.atLocation (.unclosedGroups groups.length) (src.locate m)]

/-- What is reported of an ending at a mark, where some groups are open. -/
def reports (src : Source) (groups : List Delim) (m : Mark) : Ending → List Report
  | complete => unclosed src groups m
  | refused _ p _ => [.atLocation p (src.locate m)]
  | unterminated pieces dangling =>
    .atLocation .unterminatedString (src.locate m) ::
      unclosed src groups ((unterminated pieces dangling).chars.foldl Mark.advance m)

end Ending

/-- What follows an opening quote, if it is all part of the atom. -/
theorem Unterminated.exists_ending {cs : List Char} (h : Unterminated cs) :
    ∃ pieces dangling, '"' :: cs = (Ending.unterminated pieces dangling).chars := by
  obtain ⟨pieces, rfl | rfl⟩ := h
  · exact ⟨pieces, false, by simp [Ending.chars]⟩
  · exact ⟨pieces, true, by simp [Ending.chars]⟩

/-- How a text is read where some groups are open: the items that it starts with, the groups that
    are open after them, and the ending. -/
structure Reading (limit : Nat) (groups : List Delim) (cs : List Char) (items : List Item)
    (left : List Delim) (e : Ending) : Prop where
  splits : Item.SplitsBefore e.chars cs items
  nests : Item.nestAll limit groups items = some left
  fits : e.Fits limit left

/-- **Every text is read** as items and an ending. -/
theorem exists_reading (limit : Nat) (groups : List Delim) (cs : List Char) :
    ∃ items left e, Reading limit groups cs items left e := by
  -- the rest after an item is a shorter text
  induction hn : cs.length using Nat.strongRecOn generalizing groups cs with
  | _ n ih =>
    cases cs with
    | nil => exact ⟨[], groups, .complete, .nil, rfl, trivial⟩
    | cons c cs =>
      rcases exists_item c cs with ⟨it, rest, hsplit, hend⟩ | ⟨rfl, hcs⟩
      · rw [hsplit]
        cases hnest : it.nest limit groups with
        | none =>
          -- the item is a bracket that is refused, with what comes after it
          obtain ⟨c, p, hchars, hrefuses⟩ := Item.exists_refuses hnest
          rw [hchars]
          exact ⟨[], groups, .refused c p rest, .nil, rfl, hrefuses⟩
        | some groups' =>
          have hshorter : rest.length < n := by
            have hlength := congrArg List.length hsplit
            have hpos : 0 < it.chars.length := by cases it <;> simp [Item.chars]
            simp only [List.length_append] at hlength
            omega
          obtain ⟨items, left, e, h⟩ := ih rest.length hshorter groups' rest rfl
          refine ⟨it :: items, left, e, .cons it hend h.splits, ?_, h.fits⟩
          rw [Item.nestAll, hnest]
          exact h.nests
      · obtain ⟨pieces, dangling, hchars⟩ := hcs.exists_ending
        exact ⟨[], groups, .unterminated pieces dangling, hchars ▸ .nil, rfl, trivial⟩

/-! ### Scanning what is read -/

namespace Scanner

variable (src : Source) {s : Scanner}

/-- The scanner, between items, when it has read some. -/
def afterAll (s : Scanner) (items : List Item) (groups : List Delim) : Scanner :=
  { s with
    mark := (items.flatMap Item.chars).foldl Mark.advance s.mark
    groups
    events := (Item.eventsAll src s.mark items).reverse ++ s.events }

/-- A scanner that has halted reads no more. -/
theorem foldl_step_of_halted (hmode : s.mode = .halted) (cs : List Char) :
    cs.foldl (step src) s = { s with mark := cs.foldl Mark.advance s.mark } := by
  induction cs generalizing s with
  | nil => rfl
  | cons c cs ih =>
    have hstep : s.step src c = { s with mark := s.mark.advance c } := by
      simp only [step, read, hmode]
    rw [List.foldl_cons, hstep, ih (s := { s with mark := s.mark.advance c }) hmode]
    rfl

/-- A bracket that may not stand where it does halts the scanner. -/
theorem step_refused (hmode : s.mode = .between) {c : Char} {p : Problem}
    (h : p.Refuses src.limit s.groups c) :
    (s.step src c).mode = .halted ∧ (s.step src c).events = s.events ∧
      (s.step src c).reports = .atLocation p (src.locate s.mark) :: s.reports := by
  generalize hgroups : s.groups = groups at h
  cases h with
  | nestingTooDeep d h =>
    rw [← hgroups] at h
    simp [step, read, hmode, readBetween, d.isBlank_opening, d.ofOpening?_opening, openGroup, h,
      report, halt]
  | unbalancedClose d =>
    simp [step, read, hmode, readBetween, d.isBlank_closing, d.ofOpening?_closing,
      d.ofClosing?_closing, closeGroup, hgroups, report, halt]
  | mismatchedClose d h =>
    simp [step, read, hmode, readBetween, d.isBlank_closing, d.ofOpening?_closing,
      d.ofClosing?_closing, closeGroup, hgroups, h, report, halt]

end Scanner

variable {src : Source} {s : Scanner}

/-- Reading the items that a text starts with. -/
theorem scanFrom_items (hmode : s.mode = .between) {rest cs : List Char} {items : List Item}
    {groups : List Delim} (h : Item.SplitsBefore rest cs items)
    (hnest : Item.nestAll src.limit s.groups items = some groups) :
    scanFrom src s cs = scanFrom src (s.afterAll src items groups) rest := by
  induction h generalizing s with
  | nil =>
    obtain rfl : s.groups = groups := by simpa [Item.nestAll] using hnest
    rfl
  | cons it hend _ ih =>
    obtain ⟨groups', hit, hnest⟩ := Option.bind_eq_some_iff.mp hnest
    rw [scanFrom_item hmode it hend hit, ih (s := s.after src it groups') hmode hnest]
    simp [Scanner.after, Scanner.afterAll, Item.eventsAll]

/-- Reading an ending from between items. -/
theorem scanFrom_chars (hmode : s.mode = .between) {e : Ending}
    (hfits : e.Fits src.limit s.groups) :
    scanFrom src s e.chars
      = ⟨s.events.reverse ++ e.events (src.locate s.mark),
        s.reports.reverse ++ e.reports src s.groups s.mark⟩ := by
  cases e with
  | complete =>
    by_cases hgroups : s.groups = []
    · simp [scanFrom, Ending.chars, Ending.events, Ending.reports, Ending.unclosed, Scanner.finish,
        Scanner.flush, hmode, hgroups]
    · simp [scanFrom, Ending.chars, Ending.events, Ending.reports, Ending.unclosed, Scanner.finish,
        Scanner.flush, hmode, hgroups, Scanner.report]
  | refused c p after =>
    -- the scanner halts at the bracket, so what comes after makes no difference
    obtain ⟨hhalted, hevents, hreports⟩ := Scanner.step_refused src hmode hfits
    rw [Ending.chars, scanFrom_cons, scanFrom, Scanner.foldl_step_of_halted src hhalted]
    simp [Scanner.finish, Scanner.flush, hhalted, hevents, hreports, Ending.events, Ending.reports]
  | unterminated pieces dangling =>
    have hopen := Scanner.step_quote src hmode
    have hinside : (s.step src '"').mode = .quoted s.mark [] false := by rw [hopen]
    rw [Ending.chars, scanFrom_cons, scanFrom_append, Scanner.foldl_pieces src hinside, hopen]
    -- a backslash that takes nothing along changes the mode, but not the characters
    cases dangling <;> by_cases hgroups : s.groups = [] <;>
      simp [scanFrom, Ending.chars, Ending.events, Ending.reports, Ending.unclosed, Scanner.step,
        Scanner.read, Scanner.finish, Scanner.flush, hgroups, Scanner.report, Scanner.sendAtom,
        Scanner.send]

/-- **What is written and reported** of a text is known from how it is read. -/
theorem Reading.scanFrom_eq (hmode : s.mode = .between) {cs : List Char} {items : List Item}
    {left : List Delim} {e : Ending} (h : Reading src.limit s.groups cs items left e) :
    let m := (items.flatMap Item.chars).foldl Mark.advance s.mark
    scanFrom src s cs
      = ⟨s.events.reverse ++ (Item.eventsAll src s.mark items ++ e.events (src.locate m)),
        s.reports.reverse ++ e.reports src left m⟩ := by
  intro m
  have hend := scanFrom_chars (s := s.afterAll src items left) hmode h.fits
  rw [scanFrom_items hmode h.splits h.nests, hend]
  simp [Scanner.afterAll, m]

/-- What is written and reported of a text that is scanned from its start. -/
theorem Reading.scan_eq {cs : List Char} {items : List Item} {left : List Delim} {e : Ending}
    (h : Reading src.limit [] cs items left e) :
    let m := (items.flatMap Item.chars).foldl Mark.advance .start
    scanChars src cs
      = ⟨Item.eventsAll src .start items ++ e.events (src.locate m), e.reports src left m⟩ :=
  Reading.scanFrom_eq (s := {}) rfl h

end Formwork
