import Formwork.Proofs.Scan.Items

namespace Formwork

/-!
# Texts that stand elsewhere

A scan of a text that stands elsewhere — further down in a document, or in another document that
includes it — is the same scan with its marks and its locations moved. This holds at every moment of
the scan, also when the scanner has written something before it comes to the text.

* `Event.relocate`, `Report.relocate`, `Node.relocate` — the same at other locations.
* `Move.Takes` — what moving marks and locations has to do with two sources.
* `Scanner.step_move` — reading one character commutes with moving.
* `Builder.nodes_move` — so does building nodes.
* `scanFrom_move`, `scan_base` — so does reading a text; and a base moves every location behind it.
-/

/-! ### The same at other locations -/

/-- An event with its location moved, if it sets one. -/
def Event.relocate (f : Location → Location) : Event → Event
  | .locate l => .locate (f l)
  | e => e

namespace Node

mutual

/-- A node with all its locations moved. -/
def relocate (f : Location → Location) : Node → Node
  | atom a => atom { a with location := f a.location }
  | comment c => comment { c with location := f c.location }
  | group d cs l s => group d (relocateAll f cs) (f l) (f s)

/-- Nodes with all their locations moved. -/
def relocateAll (f : Location → Location) : List Node → List Node
  | [] => []
  | n :: ns => relocate f n :: relocateAll f ns

end

/-- Nodes are moved one by one. -/
theorem relocateAll_eq_map (f : Location → Location) (ns : List Node) :
    relocateAll f ns = ns.map (relocate f) := by
  induction ns with
  | nil => rfl
  | cons n ns ih => rw [relocateAll, ih, List.map_cons]

end Node

/-- A report with all its locations and nodes moved. -/
def Report.relocate (f : Location → Location) (r : Report) : Report :=
  { r with locations := r.locations.map f, nodes := Node.relocateAll f r.nodes }

/-- What a scan gives, moved. -/
def Scanned.relocate (f : Location → Location) (s : Scanned) : Scanned where
  events := s.events.map (Event.relocate f)
  reports := s.reports.map (Report.relocate f)

/-! ### Moving a scan -/

/-- How marks and locations move. -/
structure Move where
  mark : Mark → Mark
  location : Location → Location

/-- Whether a move takes the marks and the locations of one source to those of another, character by
    character. -/
structure Move.Takes (v : Move) (src src' : Source) : Prop where
  limit : src'.limit = src.limit
  locate : ∀ m, src'.locate (v.mark m) = v.location (src.locate m)
  advance : ∀ m c, v.mark (m.advance c) = (v.mark m).advance c

/-- What the scanner is in the middle of, with the mark where it started moved. -/
def ScanMode.move (g : Mark → Mark) : ScanMode → ScanMode
  | .word start cs => .word (g start) cs
  | .quoted start cs escaped => .quoted (g start) cs escaped
  | .comment start cs => .comment (g start) cs
  | .between => .between
  | .halted => .halted

namespace Scanner

/-- A scanner with everything moved, which had written some events before, newest first. -/
def move (v : Move) (prior : List Event) (s : Scanner) : Scanner where
  mark := v.mark s.mark
  mode := s.mode.move v.mark
  groups := s.groups
  events := s.events.map (Event.relocate v.location) ++ prior
  reports := s.reports.map (Report.relocate v.location)

variable {v : Move} {src src' : Source} (prior : List Event) (s : Scanner)

/-- An event that sets no location is sent where its location has moved to. -/
theorem send_move (l : Location) {e : Event} (he : e.relocate v.location = e) :
    (s.move v prior).send (v.location l) e = (s.send l e).move v prior := by
  unfold send move
  rw [List.map_cons, List.map_cons, he]
  rfl

/-- A report is made where its location has moved to. -/
theorem report_move (p : Problem) (l : Location) :
    (s.move v prior).report p (v.location l) = (s.report p l).move v prior := rfl

/-- An atom is sent where its start has moved to. -/
theorem sendAtom_move (h : v.Takes src src') (start : Mark) (cs : List Char) :
    (s.move v prior).sendAtom src' (v.mark start) cs = (s.sendAtom src start cs).move v prior := by
  rw [sendAtom, h.locate]
  exact send_move prior s _ rfl

/-- So is a comment. -/
theorem sendComment_move (h : v.Takes src src') (start : Mark) (cs : List Char) :
    (s.move v prior).sendComment src' (v.mark start) cs
      = (s.sendComment src start cs).move v prior := by
  rw [sendComment, h.locate]
  exact send_move prior s _ rfl

/-- A group is opened where its bracket has moved to, or reported there. -/
theorem openGroup_move (h : v.Takes src src') (d : Delim) :
    (s.move v prior).openGroup src' d = (s.openGroup src d).move v prior := by
  have hhere : src'.locate (s.move v prior).mark = v.location (src.locate s.mark) := h.locate s.mark
  unfold openGroup
  simp only [hhere, h.limit]
  show (if src.limit ≤ s.groups.length then _ else _) = _
  split
  · rw [report_move]
    rfl
  · exact send_move prior { s with groups := d :: s.groups } _ rfl

/-- It is closed where its bracket has moved to, or the bracket is reported there. -/
theorem closeGroup_move (h : v.Takes src src') (d : Delim) :
    (s.move v prior).closeGroup src' d = (s.closeGroup src d).move v prior := by
  have hhere : src'.locate (s.move v prior).mark = v.location (src.locate s.mark) := h.locate s.mark
  have hgroups : (s.move v prior).groups = s.groups := rfl
  unfold closeGroup
  simp only [hhere, hgroups]
  split
  · rfl
  case h_2 g gs _ =>
    split
    · exact send_move prior { s with groups := gs } _ rfl
    · rfl

/-- Reading a character between atoms commutes with moving. -/
theorem readBetween_move (h : v.Takes src src') (c : Char) :
    (s.move v prior).readBetween src' c = (s.readBetween src c).move v prior := by
  unfold readBetween
  split
  · rfl
  · split
    · exact openGroup_move prior s h _
    · exact closeGroup_move prior s h _
    · split
      · rfl
      · split <;> rfl

/-- Reading a character commutes with moving. -/
theorem read_move (h : v.Takes src src') (c : Char) :
    (s.move v prior).read src' c = (s.read src c).move v prior := by
  have hmode : (s.move v prior).mode = s.mode.move v.mark := rfl
  unfold read
  rw [hmode]
  cases hs : s.mode with
  | between => exact readBetween_move prior s h c
  | halted => rfl
  | comment start cs =>
    simp only [ScanMode.move]
    split
    · rw [sendComment_move prior s h]
      rfl
    · rfl
  | quoted start cs escaped =>
    cases escaped with
    | true => rfl
    | false =>
      simp only [ScanMode.move]
      split
      · rw [sendAtom_move prior s h]
        rfl
      · split <;> rfl
  | word start cs =>
    simp only [ScanMode.move]
    split
    · rw [sendAtom_move prior s h]
      rfl
    · split
      · -- the character that ends the atom is read once more, between atoms
        rw [sendAtom_move prior s h]
        exact readBetween_move prior (s.sendAtom src start cs).between h c
      · rfl

/-- **One character** leads a moved scanner to where the other one goes, moved. -/
theorem step_move (h : v.Takes src src') (c : Char) :
    (s.move v prior).step src' c = (s.step src c).move v prior := by
  have hmark : (s.move v prior).mark.advance c = v.mark (s.mark.advance c) :=
    (h.advance s.mark c).symm
  unfold step
  rw [read_move prior s h, hmark]
  rfl

/-- So do some characters, one after another. -/
theorem foldl_step_move (h : v.Takes src src') (cs : List Char) :
    cs.foldl (step src') (s.move v prior) = (cs.foldl (step src) s).move v prior := by
  induction cs generalizing s with
  | nil => rfl
  | cons c cs ih => rw [List.foldl_cons, List.foldl_cons, step_move prior s h, ih]

/-- What is left unfinished at the end of the text is finished where its start has moved to. -/
theorem flush_move (h : v.Takes src src') :
    (s.move v prior).flush src' = (s.flush src).move v prior := by
  have hmode : (s.move v prior).mode = s.mode.move v.mark := rfl
  unfold flush
  rw [hmode]
  cases hs : s.mode with
  | between => rfl
  | halted => rfl
  | comment start cs => exact sendComment_move prior s h start cs
  | word start cs => exact sendAtom_move prior s h start cs
  | quoted start cs escaped =>
    simp only [ScanMode.move, h.locate]
    rw [report_move]
    exact sendAtom_move prior (s.report .unterminatedString (src.locate start)) h start cs

/-- The end of a text commutes with moving. -/
theorem finish_move (h : v.Takes src src') :
    (s.move v prior).finish src' = (s.finish src).move v prior := by
  have hhere : src'.locate (s.move v prior).mark = v.location (src.locate s.mark) := h.locate s.mark
  have hhalted : (s.move v prior).mode = .halted ↔ s.mode = .halted := by
    show s.mode.move v.mark = .halted ↔ _
    cases s.mode <;> simp [ScanMode.move]
  have hgroups : (s.move v prior).groups = s.groups := rfl
  unfold finish
  simp only [hhere, hhalted, hgroups, flush_move prior s h]
  split
  · rfl
  · exact report_move prior (s.flush src) _ _

end Scanner

/-! ### Building what has moved -/

/-- An open group with its locations moved. -/
def OpenGroup.relocate (f : Location → Location) (g : OpenGroup) : OpenGroup :=
  { g with location := f g.location, children := Node.relocateAll f g.children }

namespace Builder

variable {f : Location → Location} {prior : List Node}

/-- A builder with everything moved, which had finished some nodes before, newest first. -/
def move (f : Location → Location) (prior : List Node) (b : Builder) : Builder where
  here := f b.here
  top := Node.relocateAll f b.top ++ prior
  groups := b.groups.map (OpenGroup.relocate f)

/-- A node is added where the builder has moved. -/
theorem push_move (b : Builder) (n : Node) :
    (b.move f prior).push (n.relocate f) = (b.push n).move f prior := by
  cases hgroups : b.groups <;>
    simp [push, move, hgroups, OpenGroup.relocate, Node.relocateAll]

/-- The innermost group closes where it has moved to. Where none is open, none closes. -/
theorem close_move (b : Builder) : (b.move f prior).close = b.close.move f prior := by
  cases hgroups : b.groups with
  | nil => simp [close, move, hgroups]
  | cons g gs =>
    -- the children of the group are moved in the order they are kept in
    have hnode : (g.relocate f).close (f b.here) = (g.close b.here).relocate f := by
      simp [OpenGroup.close, OpenGroup.relocate, Node.relocate, Node.relocateAll_eq_map]
    let rest : Builder := { b with groups := gs }
    have hpush : (rest.move f prior).push ((g.close b.here).relocate f)
        = (rest.push (g.close b.here)).move f prior := push_move rest _
    rw [← hnode] at hpush
    simp only [close, move, hgroups, List.map_cons]
    exact hpush

/-- Taking in an event commutes with moving. -/
theorem receive_move (b : Builder) (e : Event) :
    (b.move f prior).receive (e.relocate f) = (b.receive e).move f prior := by
  cases e with
  | locate => rfl
  | opening => rfl
  | atom value => exact push_move b (.atom (Atom.plain value b.here))
  | comment text => exact push_move b (.comment { text, location := b.here })
  | closing => exact close_move b

/-- Moved events lead a moved builder to where the events lead the builder, moved. -/
theorem feed_move (b : Builder) (es : List Event) :
    Sink.feed (b.move f prior) (es.map (Event.relocate f)) = (Sink.feed b es).move f prior := by
  induction es generalizing b with
  | nil => rfl
  | cons e es ih =>
    have hreceive : Sink.receive (b.move f prior) (e.relocate f) = (Sink.receive b e).move f prior :=
      receive_move b e
    rw [List.map_cons, Sink.feed_cons, Sink.feed_cons, hreceive, ih]

/-- The nodes of a builder with everything moved. -/
theorem nodes_move (b : Builder) :
    (b.move f prior).nodes = prior.reverse ++ Node.relocateAll f b.nodes := by
  -- generalised over the builder, which every closing changes
  have hclose : ∀ (gs : List OpenGroup) (b : Builder),
      (gs.map (OpenGroup.relocate f)).foldl (fun b _ => b.close) (b.move f prior)
        = (gs.foldl (fun b _ => b.close) b).move f prior := by
    intro gs
    induction gs with
    | nil => exact fun b => rfl
    | cons g gs ih =>
      intro b
      rw [List.map_cons, List.foldl_cons, close_move, ih, List.foldl_cons]
  have hall : (b.move f prior).closeAll = b.closeAll.move f prior := hclose b.groups b
  rw [nodes, hall]
  simp [move, nodes, Node.relocateAll_eq_map]

end Builder

/-! ### Whole texts -/

/-- **A text that stands elsewhere** is scanned as it would be anywhere, with everything moved. -/
theorem scanFrom_move {v : Move} {src src' : Source} (h : v.Takes src src') (prior : List Event)
    (s : Scanner) (cs : List Char) :
    scanFrom src' (s.move v prior) cs
      = ⟨prior.reverse ++ ((scanFrom src s cs).relocate v.location).events,
        ((scanFrom src s cs).relocate v.location).reports⟩ := by
  have hdone : (cs.foldl (Scanner.step src') (s.move v prior)).finish src'
      = ((cs.foldl (Scanner.step src) s).finish src).move v prior := by
    rw [Scanner.foldl_step_move prior s h, Scanner.finish_move prior _ h]
  simp only [scanFrom, hdone]
  simp [Scanner.move, Scanned.relocate]

/-- **A base** moves every location behind it, and makes no other difference. -/
theorem scan_base (origin : String) (base : Location) (limit : Nat) (text : String) :
    scan { origin, base := some base, limit } text
      = (scan { origin, limit } text).relocate (base.via .inclusion) := by
  let v : Move := ⟨id, base.via .inclusion⟩
  have htakes : v.Takes { origin, limit } { origin, base := some base, limit } :=
    ⟨rfl, fun _ => rfl, fun _ _ => rfl⟩
  exact scanFrom_move htakes [] {} text.toList

end Formwork
