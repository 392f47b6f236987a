import Formwork.Proofs.Scan.Endings

namespace Formwork

/-!
# The event stream of any text

However broken a text is, its events come in pairs of a location and what stands there, each closing
bracket closes the innermost open group, and no more groups are open at once than is allowed. A
bracket that may not stand where it does is the only report then, and what comes after it makes no
difference.

* `Event.WellNested` — the streams, with the groups that are open before and after.
* `Reading.wellNested` — the events of a text are such a stream.
* `Reading.change_after` — what comes after a bracket that is refused.
* `scan_wellNested` — the events and the reports of every text.
-/

/-! ### Streams -/

/-- Whether events come with their locations before them, no more groups are open at once than is
    allowed, and each closing bracket closes the innermost one. The open groups, innermost first, are
    those before and after the events. -/
inductive Event.WellNested (limit : Nat) : List Delim → List Event → List Delim → Prop where
  | nil {groups : List Delim} : WellNested limit groups [] groups
  | atom {groups left : List Delim} {es : List Event} (l : Location) (value : String)
      (h : WellNested limit groups es left) :
      WellNested limit groups (.locate l :: .atom value :: es) left
  | comment {groups left : List Delim} {es : List Event} (l : Location) (text : String)
      (h : WellNested limit groups es left) :
      WellNested limit groups (.locate l :: .comment text :: es) left
  | opening {groups left : List Delim} {es : List Event} (l : Location) (d : Delim)
      (hroom : groups.length < limit) (h : WellNested limit (d :: groups) es left) :
      WellNested limit groups (.locate l :: .opening d :: es) left
  | closing {groups left : List Delim} {es : List Event} (l : Location) (d : Delim)
      (h : WellNested limit groups es left) :
      WellNested limit (d :: groups) (.locate l :: .closing d :: es) left

namespace Event.WellNested

variable {limit : Nat} {groups middle left : List Delim} {es fs : List Event}

/-- Streams follow each other where the groups of the one are left open for the other. -/
theorem append (hes : WellNested limit groups es middle) (hfs : WellNested limit middle fs left) :
    WellNested limit groups (es ++ fs) left := by
  induction hes with
  | nil => exact hfs
  | atom l value _ ih => exact .atom l value (ih hfs)
  | comment l text _ ih => exact .comment l text (ih hfs)
  | opening l d hroom _ ih => exact .opening l d hroom (ih hfs)
  | closing l d _ ih => exact .closing l d (ih hfs)

end Event.WellNested

/-- What an item means goes on a stream if it may stand there. -/
theorem Item.wellNested_events {limit : Nat} {groups groups' : List Delim} {it : Item}
    (h : it.nest limit groups = some groups') (l : Location) :
    Event.WellNested limit groups (it.events l) groups' := by
  -- only brackets change the groups, and they fit as they nest
  cases it with
  | blank => obtain rfl := Option.some.inj h; exact .nil
  | comment => obtain rfl := Option.some.inj h; exact .comment l _ .nil
  | quoted => obtain rfl := Option.some.inj h; exact .atom l _ .nil
  | word => obtain rfl := Option.some.inj h; exact .atom l _ .nil
  | opening d =>
    simp only [nest, Option.ite_none_left_eq_some, Option.some.injEq] at h
    obtain ⟨hroom, rfl⟩ := h
    exact .opening l d (Nat.lt_of_not_le hroom) .nil
  | closing d =>
    cases groups with
    | nil => simp [nest] at h
    | cons g gs =>
      simp only [nest, Option.ite_none_right_eq_some, Option.some.injEq] at h
      obtain ⟨rfl, rfl⟩ := h
      exact .closing l g .nil

/-- What items mean is a stream. -/
theorem Item.wellNested_eventsAll (src : Source) {groups left : List Delim} {items : List Item}
    (h : nestAll src.limit groups items = some left) (m : Mark) :
    Event.WellNested src.limit groups (eventsAll src m items) left := by
  induction items generalizing groups m with
  | nil =>
    obtain rfl := Option.some.inj h
    exact .nil
  | cons it items ih =>
    obtain ⟨groups', hit, h⟩ := Option.bind_eq_some_iff.mp h
    exact (wellNested_events hit _).append (ih h _)

/-- An ending opens no group and closes none. -/
theorem Ending.wellNested_events (limit : Nat) (groups : List Delim) (l : Location) (e : Ending) :
    Event.WellNested limit groups (e.events l) groups := by
  cases e with
  | complete => exact .nil
  | refused => exact .nil
  | unterminated => exact .atom l _ .nil

/-- The events of a text are a stream, which leaves open what is open where the text ends. -/
theorem Reading.wellNested {src : Source} {cs : List Char} {items : List Item} {left : List Delim}
    {e : Ending} (h : Reading src.limit [] cs items left e) :
    Event.WellNested src.limit [] (scanChars src cs).events left := by
  rw [h.scan_eq]
  exact (Item.wellNested_eventsAll src h.nests _).append (e.wellNested_events _ _ _)

/-! ### After a bracket that is refused -/

/-- Whatever comes after a bracket that is refused, the text is read the same up to there. -/
theorem Reading.change_after {limit : Nat} {groups left : List Delim} {cs : List Char}
    {items : List Item} {c : Char} {p : Problem} {after : List Char}
    (h : Reading limit groups cs items left (.refused c p after)) (after' : List Char) :
    Reading limit groups (items.flatMap Item.chars ++ c :: after') items left
      (.refused c p after') := by
  have hsplits : Item.SplitsBefore (c :: after) cs items := h.splits
  have hnext : ∀ it : Item, it.EndsBefore (c :: after).head? → it.EndsBefore (c :: after').head? :=
    fun _ hit => hit
  exact ⟨hsplits.change_rest hnext, h.nests, h.fits⟩

/-- **Every text gives a well-nested stream.** Either the text is read to its end, and what is
    reported is that a quoted atom is not terminated and how many groups the stream leaves open; or a
    bracket may not stand where the stream leaves off, which is all that is reported, and what comes
    after it is not read. If nothing is reported, all groups are closed. -/
theorem scan_wellNested (src : Source) (text : String) :
    let scanned := scan src text
    ∃ left, Event.WellNested src.limit [] scanned.events left ∧
      (scanned.reports = [] → left = []) ∧
      ((∃ unterminated, (unterminated = [] ∨ unterminated = [.unterminatedString]) ∧
          scanned.reports.map Report.problem
            = unterminated ++ if left = [] then [] else [.unclosedGroups left.length]) ∨
        ∃ before c after p, text.toList = before ++ c :: after ∧
          p.Refuses src.limit left c ∧
          scanned.reports = [.atLocation p (src.locate (before.foldl Mark.advance .start))] ∧
          ∀ after', scan src (String.ofList (before ++ c :: after')) = scanned) := by
  intro scanned
  obtain ⟨items, left, e, h⟩ := exists_reading src.limit [] text.toList
  let m := (items.flatMap Item.chars).foldl Mark.advance .start
  have hscan : scanned = ⟨Item.eventsAll src .start items ++ e.events (src.locate m),
      e.reports src left m⟩ := h.scan_eq
  have hunclosed : ∀ m, (Ending.unclosed src left m).map Report.problem
      = if left = [] then [] else [.unclosedGroups left.length] := by
    intro m
    unfold Ending.unclosed
    split <;> rfl
  refine ⟨left, h.wellNested, ?_, ?_⟩
  · rw [hscan]
    cases e with
    | complete => simp [Ending.reports, Ending.unclosed]
    | refused => simp [Ending.reports]
    | unterminated => simp [Ending.reports]
  · -- the scan ends in one of three ways; a bracket that is refused hides what is left open
    cases e with
    | complete =>
      refine .inl ⟨[], .inl rfl, ?_⟩
      rw [hscan]
      exact hunclosed m
    | unterminated pieces dangling =>
      refine .inl ⟨[.unterminatedString], .inr rfl, ?_⟩
      rw [hscan]
      exact congrArg (List.cons _) (hunclosed _)
    | refused c p after =>
      refine .inr ⟨items.flatMap Item.chars, c, after, p, h.splits.eq_append, h.fits, ?_, ?_⟩
      · rw [hscan]
        rfl
      · -- the text behind the bracket is in no item, so it can be any other
        intro after'
        rw [hscan, scan, String.toList_ofList, (h.change_after after').scan_eq]
        rfl

end Formwork
