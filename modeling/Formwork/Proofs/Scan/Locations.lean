import Formwork.Proofs.Scan.Endings
import Formwork.Proofs.Scan.Marks
import Formwork.Proofs.Scan.Relocation

namespace Formwork

/-!
# Events stand where they are written

An atom or a comment is written when its last character has been read, but it stands where its
first one is. So the location of each event is the mark of a character of the text, and from that
character on the text reads what the event says. The same holds of reports: they stand at the
bracket or the quote that is to blame, or at the end of the text.

* `Event.Written`, `Problem.FoundIn` — what a text reads where an event or a problem stands.
* `Item.marked` — the events of items with their marks, which only grow.
* `exists_marked`, `scan_locations_exact` — the locations of a whole scan.
-/

/-! ### What is written -/

/-- Whether an event is written at the start of some characters. An unquoted atom is written as it
    is and a comment behind a semicolon, each as long as it can be; a quoted atom runs to its closing
    quote or to the end of the text. -/
inductive Event.Written : List Char → Event → Prop where
  | opening (d : Delim) (after : List Char) : Written (d.opening :: after) (.opening d)
  | closing (d : Delim) (after : List Char) : Written (d.closing :: after) (.closing d)
  | comment (text after : List Char) (hline : '\n' ∉ text ∧ '\r' ∉ text)
      (hend : ∀ c ∈ after.head?, c = '\n' ∨ c = '\r') :
      Written (';' :: (text ++ after)) (.comment (String.ofList text))
  | quoted (pieces : List Piece) (after : List Char) :
      Written ('"' :: (pieces.flatMap Piece.chars ++ '"' :: after))
        (.atom (String.ofList (pieces.map Piece.value)))
  | unterminated (pieces : List Piece) (dangling : Bool) :
      Written ('"' :: (pieces.flatMap Piece.chars ++ if dangling then ['\\'] else []))
        (.atom (String.ofList (pieces.map Piece.value)))
  | word (first : Char) (more after : List Char) (hchars : ∀ c ∈ first :: more, ¬Separates c)
      (hcolon : ':' ∉ more.dropLast)
      (hend : more.getLast? = some ':' ∨ ∀ c ∈ after.head?, Separates c) :
      Written (first :: (more ++ after)) (.atom (String.ofList (first :: more)))

/-- Whether a problem is found at the start of some characters: at a bracket that may not stand
    there, at a quote that opens an atom which is not terminated, or at the end. -/
inductive Problem.FoundIn (limit : Nat) : List Char → Problem → Prop where
  | refused {groups : List Delim} {c : Char} {p : Problem} (h : p.Refuses limit groups c)
      (after : List Char) : FoundIn limit (c :: after) p
  | unterminated (pieces : List Piece) (dangling : Bool) :
      FoundIn limit ('"' :: (pieces.flatMap Piece.chars ++ if dangling then ['\\'] else []))
        .unterminatedString
  | unclosed (count : Nat) : FoundIn limit [] (.unclosedGroups count)

/-! ### Items with their marks -/

/-- An event with a mark, as two events. -/
def Event.placed (locate : Mark → Location) (p : Mark × Event) : List Event :=
  [.locate (locate p.1), p.2]

namespace Item

/-- The event that an item means, if it means one. -/
def event? : Item → Option Event
  | blank _ _ => none
  | comment text _ => some (.comment (String.ofList text))
  | quoted pieces => some (.atom (String.ofList (pieces.map Piece.value)))
  | word first rest _ _ _ => some (.atom (String.ofList (first :: rest)))
  | opening d => some (.opening d)
  | closing d => some (.closing d)

theorem chars_ne_nil (it : Item) : it.chars ≠ [] := by
  cases it <;> simp [chars]

/-- Every item takes up some bytes. -/
theorem offset_lt (it : Item) (m : Mark) : m.offset < (it.chars.foldl Mark.advance m).offset := by
  obtain ⟨c, cs, hchars⟩ := List.exists_cons_of_ne_nil it.chars_ne_nil
  have hpos : 0 < c.utf8Size := c.utf8Size_pos
  have hbytes : (String.ofList (c :: cs)).utf8ByteSize
      = c.utf8Size + (String.ofList cs).utf8ByteSize := by
    rw [String.ofList_cons, String.utf8ByteSize_append, String.utf8ByteSize_singleton]
  rw [hchars, Mark.offset_foldl, hbytes]
  omega

/-- The events that items mean, each with the mark where it stands. -/
def marked : Mark → List Item → List (Mark × Event)
  | _, [] => []
  | m, it :: items =>
    (it.event?.map fun e => (m, e)).toList ++ marked (it.chars.foldl Mark.advance m) items

theorem eventsAll_eq_marked (src : Source) (m : Mark) (items : List Item) :
    eventsAll src m items = (marked m items).flatMap (Event.placed src.locate) := by
  induction items generalizing m with
  | nil => rfl
  | cons it items ih =>
    rw [eventsAll, marked, List.flatMap_append, ih]
    cases it <;> rfl

/-- Items stand between the marks before and after them. -/
theorem offset_marked (m : Mark) (items : List Item) :
    m.offset ≤ ((items.flatMap chars).foldl Mark.advance m).offset ∧
      ∀ p ∈ marked m items, m.offset ≤ p.1.offset ∧
        p.1.offset < ((items.flatMap chars).foldl Mark.advance m).offset := by
  induction items generalizing m with
  | nil => exact ⟨Nat.le_refl _, by simp [marked]⟩
  | cons it items ih =>
    obtain ⟨hmore, hitems⟩ := ih (it.chars.foldl Mark.advance m)
    have hlt := it.offset_lt m
    rw [List.flatMap_cons, List.foldl_append]
    refine ⟨by omega, fun p hp => ?_⟩
    rcases List.mem_append.mp hp with hp | hp
    · obtain ⟨e, -, rfl⟩ := Option.map_eq_some_iff.mp (Option.mem_toList.mp hp)
      exact ⟨Nat.le_refl _, by show m.offset < _; omega⟩
    · have hp := hitems p hp
      omega

/-- The marks of items only grow. -/
theorem pairwise_marked (m : Mark) (items : List Item) :
    (marked m items).Pairwise fun p q => p.1.offset < q.1.offset := by
  induction items generalizing m with
  | nil => exact .nil
  | cons it items ih =>
    refine List.pairwise_append.mpr ⟨?_, ih _, fun p hp q hq => ?_⟩
    · cases it.event? with
      | none => exact .nil
      | some e => exact List.pairwise_singleton _ _
    · -- what comes later stands after the whole item
      obtain ⟨e, -, rfl⟩ := Option.map_eq_some_iff.mp (Option.mem_toList.mp hp)
      have hq := ((offset_marked (it.chars.foldl Mark.advance m) items).2 q hq).1
      exact Nat.lt_of_lt_of_le (it.offset_lt m) hq

/-- The event of an item is written where the item starts. -/
theorem written_event? {it : Item} {after : List Char} (hend : it.EndsBefore after.head?)
    {e : Event} (he : it.event? = some e) : e.Written (it.chars ++ after) := by
  cases it with
  | blank c h => cases he
  | comment text h =>
    -- only blanks make no event; any other item is what its event is written as
    cases he
    exact .comment text after h hend
  | quoted pieces =>
    cases he
    have hchars : chars (.quoted pieces) ++ after
        = '"' :: (pieces.flatMap Piece.chars ++ '"' :: after) := by simp [chars]
    rw [hchars]
    exact .quoted pieces after
  | word first more hfirst hmore hcolon =>
    cases he
    exact .word first more after (List.forall_mem_cons.mpr ⟨hfirst, hmore⟩) hcolon hend
  | opening d =>
    cases he
    exact .opening d after
  | closing d =>
    cases he
    exact .closing d after

/-- Each event of the items that a text goes on with is written at its mark. -/
theorem SplitsBefore.written {text : String} {rest cs : List Char} {items : List Item}
    (h : SplitsBefore rest cs items) {before : List Char} (htext : text.toList = before ++ cs) :
    ∀ p ∈ marked (before.foldl Mark.advance .start) items,
      ∃ after, p.1.Reads text after ∧ p.2.Written after := by
  induction h generalizing before with
  | nil => simp [marked]
  | @cons it cs items hend _ ih =>
    intro p hp
    rcases List.mem_append.mp hp with hp | hp
    · obtain ⟨e, he, rfl⟩ := Option.map_eq_some_iff.mp (Option.mem_toList.mp hp)
      exact ⟨it.chars ++ cs, Mark.reads_foldl htext, written_event? hend he⟩
    · -- the next item stands after the characters of this one
      rw [← List.foldl_append] at hp
      exact ih (by rw [htext, List.append_assoc]) p hp

end Item

/-! ### Endings with their marks -/

namespace Ending

/-- The event of an ending, with the mark where it stands. -/
def marked (m : Mark) : Ending → List (Mark × Event)
  | unterminated pieces _ => [(m, .atom (String.ofList (pieces.map Piece.value)))]
  | _ => []

theorem events_eq_marked (src : Source) (m : Mark) (e : Ending) :
    e.events (src.locate m) = (e.marked m).flatMap (Event.placed src.locate) := by
  cases e <;> rfl

/-- The event of an ending stands where the ending starts. -/
theorem eq_of_mem_marked {m : Mark} {e : Ending} {p : Mark × Event} (hp : p ∈ e.marked m) :
    p.1 = m ∧ p.2.Written e.chars := by
  cases e with
  | complete => cases hp
  | refused => cases hp
  | unterminated pieces dangling =>
    obtain rfl := List.mem_singleton.mp hp
    exact ⟨rfl, .unterminated pieces dangling⟩

/-- What is reported of an ending stands where it starts or at the end of the text. -/
theorem found_reports {src : Source} {left : List Delim} {e : Ending} (hfits : e.Fits src.limit left)
    {text : String} {before : List Char} (htext : text.toList = before ++ e.chars) :
    ∀ r ∈ e.reports src left (before.foldl Mark.advance .start),
      ∃ m rest, r = .atLocation r.problem (src.locate m) ∧ m.Reads text rest ∧
        r.problem.FoundIn src.limit rest := by
  -- the groups that are still open are reported at the end
  have hunclosed : ∀ r ∈ unclosed src left ((before ++ e.chars).foldl Mark.advance .start),
      ∃ m rest, r = .atLocation r.problem (src.locate m) ∧ m.Reads text rest ∧
        r.problem.FoundIn src.limit rest := by
    intro r hr
    unfold unclosed at hr
    split at hr
    · cases hr
    · obtain rfl := List.mem_singleton.mp hr
      exact ⟨_, [], rfl, Mark.reads_foldl (by rw [htext, List.append_nil]), .unclosed _⟩
  rw [List.foldl_append] at hunclosed
  cases e with
  | complete => exact hunclosed
  | refused c p after =>
    intro r hr
    obtain rfl := List.mem_singleton.mp hr
    exact ⟨_, c :: after, rfl, Mark.reads_foldl htext, .refused hfits after⟩
  | unterminated pieces dangling =>
    refine List.forall_mem_cons.mpr ⟨?_, hunclosed⟩
    exact ⟨_, _, rfl, Mark.reads_foldl htext, .unterminated pieces dangling⟩

end Ending

/-! ### Whole texts -/

/-- What a scan writes and reports, with its marks. -/
theorem exists_marked (src : Source) (text : String) :
    (∃ marked : List (Mark × Event),
      (scan src text).events = marked.flatMap (Event.placed src.locate) ∧
        marked.Pairwise (fun p q => p.1.offset < q.1.offset) ∧
        ∀ p ∈ marked, ∃ rest, p.1.Reads text rest ∧ p.2.Written rest) ∧
      ∀ r ∈ (scan src text).reports, ∃ m rest, r = .atLocation r.problem (src.locate m) ∧
        m.Reads text rest ∧ r.problem.FoundIn src.limit rest := by
  obtain ⟨items, left, e, h⟩ := exists_reading src.limit [] text.toList
  have htext := h.splits.eq_append
  -- the ending stands after all items
  let m := (items.flatMap Item.chars).foldl Mark.advance .start
  have hscan : scan src text = ⟨Item.eventsAll src .start items ++ e.events (src.locate m),
      e.reports src left m⟩ := h.scan_eq
  rw [hscan]
  refine ⟨⟨Item.marked .start items ++ e.marked m, ?_, ?_, ?_⟩, Ending.found_reports h.fits htext⟩
  · rw [List.flatMap_append, Item.eventsAll_eq_marked, Ending.events_eq_marked]
  · refine List.pairwise_append.mpr ⟨Item.pairwise_marked _ _, ?_, fun p hp q hq => ?_⟩
    · cases e with
      | complete => exact .nil
      | refused => exact .nil
      | unterminated => exact List.pairwise_singleton _ _
    · rw [(Ending.eq_of_mem_marked hq).1]
      exact ((Item.offset_marked .start items).2 p hp).2
  · intro p hp
    rcases List.mem_append.mp hp with hp | hp
    · have hstart : text.toList = [] ++ text.toList := rfl
      exact h.splits.written hstart p hp
    · obtain ⟨hmark, hwritten⟩ := Ending.eq_of_mem_marked hp
      exact ⟨e.chars, hmark ▸ Mark.reads_foldl htext, hwritten⟩

/-- **Locations are exact.** The events of a scan stand at marks of the text that only grow, and the
    text reads from there on what the event says; each report stands at what it blames. This is said
    of a text that stands alone; where a text is included, each location is the same behind the
    place that includes it. -/
theorem scan_locations_exact (origin text : String) (limit : Nat) :
    let alone := scan { origin, limit } text
    (∃ marked : List (Mark × Event),
      alone.events = marked.flatMap (fun p => [.locate (.ofMark origin p.1), p.2]) ∧
        marked.Pairwise (fun p q => p.1.offset < q.1.offset) ∧
        ∀ p ∈ marked, ∃ rest, p.1.Reads text rest ∧ p.2.Written rest) ∧
      (∀ r ∈ alone.reports, ∃ m rest, r = .atLocation r.problem (.ofMark origin m) ∧
        m.Reads text rest ∧ r.problem.FoundIn limit rest) ∧
      ∀ base, scan { origin, base := some base, limit } text
        = alone.relocate fun l => base.via .inclusion l := by
  intro alone
  obtain ⟨hevents, hreports⟩ := exists_marked { origin, limit } text
  exact ⟨hevents, hreports, fun base => scan_base _ _ _ _⟩

end Formwork
