import Formwork.Proofs.Scan.Endings

namespace Formwork

/-!
# The scanner accepts its grammar

A scan reports nothing exactly when the text is a sequence of items whose brackets pair up, and then
it writes what the items mean.

* `Reading.of_quiet` — how a text is read of which nothing is reported.
* `category_parse` — what is reported of a text are problems of scanning.
* `scan_accepts_iff` — the grammar and the scan.
-/

variable {src : Source} {s : Scanner}

/-! ### What is reported -/

/-- What is wrong with a bracket that is refused is a problem of scanning. -/
theorem Problem.Refuses.category {limit : Nat} {groups : List Delim} {c : Char} {p : Problem}
    (h : p.Refuses limit groups c) : p.category = .parse := by
  cases h <;> rfl

theorem Ending.category_reports {left : List Delim} {e : Ending} (hfits : e.Fits src.limit left)
    (m : Mark) : ∀ r ∈ e.reports src left m, r.problem.category = .parse := by
  have hunclosed : ∀ m, ∀ r ∈ unclosed src left m, r.problem.category = .parse := by
    intro m r hr
    unfold unclosed at hr
    split at hr
    · cases hr
    · obtain rfl := List.mem_singleton.mp hr
      rfl
  cases e with
  | complete => exact hunclosed m
  | refused c p after => exact List.forall_mem_singleton.mpr hfits.category
  | unterminated => exact List.forall_mem_cons.mpr ⟨rfl, hunclosed _⟩

/-- All that is reported of a text are problems of scanning. -/
theorem category_parse (src : Source) (text : String) :
    ∀ r ∈ (parse src text).2, r.problem.category = .parse := by
  obtain ⟨items, left, e, h⟩ := exists_reading src.limit [] text.toList
  show ∀ r ∈ (scanChars src text.toList).reports, _
  rw [h.scan_eq]
  exact Ending.category_reports h.fits _

/-! ### Texts of which nothing is reported -/

/-- A text of which nothing is reported is over after its items, and they leave no group open. -/
theorem Reading.of_quiet (hmode : s.mode = .between) {cs : List Char} {items : List Item}
    {left : List Delim} {e : Ending} (h : Reading src.limit s.groups cs items left e)
    (hquiet : (scanFrom src s cs).reports = []) :
    e = .complete ∧ left = [] := by
  have hreports :
      e.reports src left ((items.flatMap Item.chars).foldl Mark.advance s.mark) = [] := by
    rw [h.scanFrom_eq hmode] at hquiet
    exact (List.append_eq_nil_iff.mp hquiet).2
  -- of the three endings two report something, whatever is open
  cases e with
  | complete => exact ⟨rfl, by simpa [Ending.reports, Ending.unclosed] using hreports⟩
  | refused => simp [Ending.reports] at hreports
  | unterminated => simp [Ending.reports] at hreports

/-- A text is the sequence of items that it starts with, if nothing is left. -/
theorem Item.splitsBefore_nil_iff {cs : List Char} {items : List Item} :
    SplitsBefore [] cs items ↔ Splits cs items := by
  constructor
  · intro h
    induction h with
    | nil => exact .nil
    | cons it hend _ ih => exact .cons it hend ih
  · intro h
    induction h with
    | nil => exact .nil
    | cons it hend _ ih => exact .cons it hend ih

/-- **Reading items** that leave no group open writes what they mean and reports nothing. -/
theorem scanFrom_of_splits {cs : List Char} {items : List Item} (h : Item.Splits cs items)
    (hmode : s.mode = .between) (hnest : Item.nestAll src.limit s.groups items = some []) :
    scanFrom src s cs
      = ⟨s.events.reverse ++ Item.eventsAll src s.mark items, s.reports.reverse⟩ := by
  have hreading : Reading src.limit s.groups cs items [] .complete :=
    ⟨Item.splitsBefore_nil_iff.mpr h, hnest, trivial⟩
  rw [hreading.scanFrom_eq hmode]
  simp [Ending.events, Ending.reports, Ending.unclosed]

/-- **A scan that reports nothing** has read items that leave no group open. -/
theorem exists_splits {cs : List Char} (hmode : s.mode = .between)
    (hquiet : (scanFrom src s cs).reports = []) :
    ∃ items, Item.Splits cs items ∧ Item.nestAll src.limit s.groups items = some [] := by
  obtain ⟨items, left, e, h⟩ := exists_reading src.limit s.groups cs
  obtain ⟨rfl, rfl⟩ := h.of_quiet hmode hquiet
  exact ⟨items, Item.splitsBefore_nil_iff.mp h.splits, h.nests⟩

/-! ### Whole texts -/

/-- **The scanner accepts exactly its grammar.** A scan reports nothing if and only if the text is a
    sequence of items, each as long as it can be, whose brackets pair up by kind, are properly
    nested and never open more than the limit; and then it writes what these items mean, in their
    order. -/
theorem scan_accepts_iff (src : Source) (text : String) :
    ((scan src text).reports = [] ↔
        ∃ items, Item.Splits text.toList items ∧ Item.Nested src.limit items) ∧
      ∀ items, Item.Splits text.toList items → Item.Nested src.limit items →
        (scan src text).events = Item.eventsAll src Mark.start items := by
  have hscan : scan src text = scanFrom src {} text.toList := rfl
  -- any splitting of the text whose brackets nest says all of what the scan makes of it
  have hread : ∀ items, Item.Splits text.toList items → Item.Nested src.limit items →
      scan src text = ⟨Item.eventsAll src Mark.start items, []⟩ := by
    intro items hsplits hnested
    rw [hscan, scanFrom_of_splits hsplits rfl (Item.nestAll_eq_some_nil_iff.mpr hnested)]
    rfl
  refine ⟨⟨fun hquiet => ?_, ?_⟩, ?_⟩
  · obtain ⟨items, hsplits, hnest⟩ := exists_splits rfl (hscan ▸ hquiet)
    exact ⟨items, hsplits, Item.nestAll_eq_some_nil_iff.mp hnest⟩
  · rintro ⟨items, hsplits, hnested⟩
    rw [hread items hsplits hnested]
  · intro items hsplits hnested
    rw [hread items hsplits hnested]

/-- The items of `k:("a\"b") ;c`: the colon ends an atom, and the line the comment. -/
def mixedItems : List Item :=
  [.word 'k' [':'] (by simp [Separates]; decide) (by simp [Separates]; decide) (by simp),
    .opening .paren, .quoted [.plain 'a' (by decide), .escaped '"', .plain 'b' (by decide)],
    .closing .paren, .blank ' ' (by decide), .comment ['c'] (by decide)]

theorem scan_accepts_iff_mixed :
    let text := "k:(\"a\\\"b\") ;c"
    Item.Splits text.toList mixedItems ∧ Item.Nested 1 mixedItems ∧
      (scan { origin := "doc", limit := 1 } text).reports = [] ∧
      (scan { origin := "doc", limit := 1 } text).events
        = Item.eventsAll { origin := "doc", limit := 1 } Mark.start mixedItems := by
  intro text
  have htext : text.toList = mixedItems.flatMap Item.chars := by decide +kernel
  have hsplits : Item.Splits text.toList mixedItems := by
    rw [htext]
    exact .cons _ (.inl rfl) (.cons _ trivial (.cons _ trivial (.cons _ trivial (.cons _ trivial
      (.cons _ (fun c hc => absurd hc (by simp)) .nil)))))
  have hnested : Item.Nested 1 mixedItems :=
    .leaf rfl (.group .paren (.leaf rfl .nil) (.leaf rfl (.leaf rfl .nil)))
  obtain ⟨hiff, hevents⟩ := scan_accepts_iff { origin := "doc", limit := 1 } text
  exact ⟨hsplits, hnested, hiff.mpr ⟨mixedItems, hsplits, hnested⟩,
    hevents mixedItems hsplits hnested⟩

end Formwork
