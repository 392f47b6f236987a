import Formwork.Proofs.Replay
import Formwork.Proofs.Scan.Accepts
import Formwork.Proofs.Scan.Marks
import Formwork.Proofs.Scan.Relocation
import Formwork.Proofs.Scan.Streams
import Mathlib.Data.List.ModifyLast

namespace Formwork

/-!
# Scanning line by line

A text that scans without a report may end in the middle of an unquoted atom or of a comment. A line
feed after it ends them as the end of the text does, and leaves the scanner between atoms with no
group open. So what comes on the lines after it is scanned as a text of its own, further down.

* `Mark.down`, `Location.down` — further down in the same text.
* `Item.endsBefore_line` — a line feed ends what may come last in a text.
* `Event.WellNested.delims_feed` — the groups that a builder has open are those of the stream.
* `Reading.scan_line` — a scanner behind a line feed is as new, but further down.
* `scan_line_append` — the scan of lines after lines.
-/

/-! ### Further down -/

/-- A mark so many bytes and lines further down. -/
def Mark.down (bytes lines : Nat) (m : Mark) : Mark :=
  { m with offset := m.offset + bytes, line := m.line + lines }

/-- A location that is so many bytes and lines further down in the text where its characters were
    written. The places that include this text stay where they are. -/
def Location.down (bytes lines : Nat) (l : Location) : Location :=
  ⟨l.chain.modifyLast fun p => { p with mark := p.mark.down bytes lines }⟩

theorem Mark.advance_down (bytes lines : Nat) (m : Mark) (c : Char) :
    (m.advance c).down bytes lines = (m.down bytes lines).advance c := by
  unfold advance down
  split <;> simp only [mk.injEq, and_true] <;> omega

/-- The marks of a text are further down where the text is. -/
theorem Source.locate_down (src : Source) (bytes lines : Nat) (m : Mark) :
    src.locate (m.down bytes lines) = (src.locate m).down bytes lines := by
  have hlast : ∀ front : List Position,
      (⟨front ++ [{ origin := src.origin, mark := m }]⟩ : Location).down bytes lines
        = ⟨front ++ [{ origin := src.origin, mark := m.down bytes lines }]⟩ :=
    fun front => congrArg Location.mk (List.modifyLast_concat _ _ front)
  unfold locate
  cases src.base with
  | none => exact (hlast []).symm
  | some base => exact (hlast _).symm

/-! ### The lines above -/

/-- A line feed ends whatever may come last in a text. -/
theorem Item.endsBefore_line {it : Item} (h : it.EndsBefore none) : it.EndsBefore (some '\n') := by
  have hblank : Text.isBlank '\n' = true := by decide
  cases it with
  | comment text htext =>
    intro c hc
    obtain rfl := Option.mem_some.mp hc
    exact .inl rfl
  | word first rest =>
    rcases h with hcolon | -
    · exact .inl hcolon
    · refine .inr fun c hc => ?_
      obtain rfl := Option.mem_some.mp hc
      exact .inl hblank
  | blank => trivial
  | quoted => trivial
  | opening => trivial
  | closing => trivial

/-! ### Building a stream -/

/-- The groups that a builder has open are those of the stream. -/
theorem Event.WellNested.delims_feed {limit : Nat} {groups left : List Delim} {es : List Event}
    (h : WellNested limit groups es left) {b : Builder}
    (hb : b.groups.map OpenGroup.delim = groups) :
    (Sink.feed b es).groups.map OpenGroup.delim = left := by
  -- a node goes into the innermost group, which stays as it was opened
  have hpush : ∀ (b : Builder) (n : Node),
      (b.push n).groups.map OpenGroup.delim = b.groups.map OpenGroup.delim := by
    intro b n
    cases hgroups : b.groups <;> simp [Builder.push, hgroups]
  induction h generalizing b with
  | nil => exact hb
  | atom l value _ ih => exact ih ((hpush _ _).trans hb)
  | comment l text _ ih => exact ih ((hpush _ _).trans hb)
  | opening l d _ _ ih => exact ih (congrArg (List.cons d) hb)
  | @closing groups left es l d _ ih =>
    refine ih ?_
    obtain ⟨g, gs, hgroups, -, hgs⟩ := List.map_eq_cons_iff.mp hb
    have hclose : (Sink.receive (Sink.receive b (.locate l)) (.closing d)).groups.map OpenGroup.delim
        = gs.map OpenGroup.delim := by
      simp only [Sink.receive, Builder.receive, Builder.close, hgroups]
      exact hpush _ _
    rw [hclose, hgs]

/-- A stream that has moved is built behind what is already there, if no group is open. -/
theorem Event.WellNested.nodes_feed {limit : Nat} {left : List Delim} {es : List Event}
    (h : WellNested limit [] es left) {b : Builder} (hb : b.groups = []) (f : Location → Location) :
    (Sink.feed b (es.map (Event.relocate f))).nodes
      = b.nodes ++ Node.relocateAll f (Builder.build es) := by
  -- the first event sets the location, so it makes no difference where the builder is
  have hfeed : (Sink.feed b (es.map (Event.relocate f))).nodes
      = (Sink.feed (Builder.empty.move f b.top) (es.map (Event.relocate f))).nodes := by
    obtain ⟨here, top, groups⟩ := b
    subst hb
    cases h <;> rfl
  rw [hfeed, Builder.feed_move, Builder.nodes_move, ← Builder.nodes_of_no_groups hb]
  rfl

/-! ### Lines after lines -/

/-- What a line feed behind a text makes of the marks and locations of the lines below. -/
def Move.below (above : String) : Move where
  mark := Mark.down (above.utf8ByteSize + 1) (above.toList.count '\n' + 1)
  location := Location.down (above.utf8ByteSize + 1) (above.toList.count '\n' + 1)

theorem Move.takes_below (src : Source) (above : String) : (below above).Takes src src where
  limit := rfl
  locate := src.locate_down _ _
  advance := Mark.advance_down _ _

/-- The mark of the first character of the lines below. -/
theorem Move.mark_start_below (above : String) :
    (below above).mark .start = (above.toList.foldl Mark.advance .start).advance '\n' := by
  have hsize : '\n'.utf8Size = 1 := rfl
  rw [Mark.foldl_advance, String.ofList_toList]
  simp only [Mark.advance, if_true, hsize, below, Mark.down, Mark.start, Mark.mk.injEq, and_true]
  omega

/-- After a text that consists of items and leaves no group open, a line feed leaves a scanner that is
    as new, but further down. -/
theorem Reading.scan_line {src : Source} {above : String} {items : List Item}
    (h : Reading src.limit [] above.toList items [] .complete) (cs : List Char) :
    scanChars src (above.toList ++ '\n' :: cs)
      = ⟨(scan src above).events
            ++ (scanChars src cs).events.map (Event.relocate (Move.below above).location),
          (scanChars src cs).reports.map (Report.relocate (Move.below above).location)⟩ := by
  have habove : above.toList = items.flatMap Item.chars := by
    simpa [Ending.chars] using h.splits.eq_append
  have hevents : (scan src above).events = Item.eventsAll src .start items := by
    rw [scan, h.scan_eq]
    exact List.append_nil _
  -- the items end before the line feed as they end before the end of the text
  have hsplits : Item.SplitsBefore ('\n' :: cs) (above.toList ++ '\n' :: cs) items := by
    rw [habove]
    exact h.splits.change_rest fun _ => Item.endsBefore_line
  have hitems : scanFrom src {} (above.toList ++ '\n' :: cs)
      = scanFrom src (Scanner.afterAll src {} items []) ('\n' :: cs) :=
    scanFrom_items rfl hsplits h.nests
  have hfresh : (Scanner.afterAll src {} items []).step src '\n'
      = Scanner.move (Move.below above) (scan src above).events.reverse {} := by
    have hblank : Text.isBlank '\n' = true := by decide
    rw [Scanner.step_of_isBlank src rfl hblank, hevents]
    simp [Scanner.afterAll, Scanner.move, ScanMode.move, Move.mark_start_below, habove]
  show scanFrom src {} (above.toList ++ '\n' :: cs) = _
  rw [hitems, scanFrom_cons, hfresh, scanFrom_move (Move.takes_below src above),
    List.reverse_reverse]
  rfl

/-- **Scanning goes line by line.** If a text scans without a report, then it makes no difference to
    what is scanned of it that lines follow, and these are scanned as they would be on their own,
    only that everything stands further down. -/
theorem scan_line_append (src : Source) (above below : String)
    (h : (scan src above).reports = []) :
    let down := Location.down (above.utf8ByteSize + 1) (above.toList.count '\n' + 1)
    scan src (above ++ "\n" ++ below)
        = ⟨(scan src above).events ++ (scan src below).events.map (Event.relocate down),
          (scan src below).reports.map (Report.relocate down)⟩ ∧
      (parse src (above ++ "\n" ++ below)).1
        = (parse src above).1 ++ Node.relocateAll down (parse src below).1 := by
  intro down
  obtain ⟨items, left, e, habove⟩ := exists_reading src.limit [] above.toList
  obtain ⟨rfl, rfl⟩ : e = .complete ∧ left = [] := Reading.of_quiet (s := {}) rfl habove h
  have hscan : scan src (above ++ "\n" ++ below)
      = ⟨(scan src above).events ++ (scan src below).events.map (Event.relocate down),
        (scan src below).reports.map (Report.relocate down)⟩ := by
    have hjoined : (above ++ "\n" ++ below).toList = above.toList ++ '\n' :: below.toList := by
      simp
    rw [scan, hjoined]
    exact habove.scan_line below.toList
  refine ⟨hscan, ?_⟩
  -- the groups of the lines above are closed, so those of the lines below come behind them
  obtain ⟨_, _, _, hbelow⟩ := exists_reading src.limit [] below.toList
  have hclosed : (Sink.feed Builder.empty (scan src above).events).groups = [] :=
    List.map_eq_nil_iff.mp (habove.wellNested.delims_feed rfl)
  show Builder.build (scan src (above ++ "\n" ++ below)).events = _
  rw [hscan, Builder.build, Sink.feed_append]
  exact hbelow.wellNested.nodes_feed hclosed down

/-- The lines above end in the middle of an unquoted atom, and those below leave a group open at
    their end, which is the end of the fourth line. -/
theorem scan_line_append_word :
    let src : Source := { origin := "doc" }
    (scan src "(p é)\nq").reports = [] ∧
      (scan src ("(p é)\nq" ++ "\n" ++ "r\n(s")).reports
        = [.atLocation (.unclosedGroups 1) (.ofMark "doc" ⟨13, 4, 3⟩)] ∧
      (scan src ("(p é)\nq" ++ "\n" ++ "r\n(s")).events
        = (scan src "(p é)\nq").events ++ [.locate (.ofMark "doc" ⟨9, 3, 1⟩), .atom "r",
            .locate (.ofMark "doc" ⟨11, 4, 1⟩), .opening .paren,
            .locate (.ofMark "doc" ⟨12, 4, 2⟩), .atom "s"] := by
  intro src
  have habove : (scan src "(p é)\nq").reports = [] := by rfl
  obtain ⟨hscan, -⟩ := scan_line_append src "(p é)\nq" "r\n(s" habove
  refine ⟨habove, ?_, ?_⟩
  · rw [hscan]
    rfl
  · rw [hscan]
    rfl

end Formwork
