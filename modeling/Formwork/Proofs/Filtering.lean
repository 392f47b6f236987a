import Formwork.Proofs.Replay

namespace Formwork

/-!
# Taking comments out

Each event that is no location is *placed* by the location directly before it, if there is one.
Taking comments out lets the placed comments go and writes down the other placed events. So a
location that is overtaken, that comes last, or that was set for a comment leaves no trace.

* `Event.placements` — the events with the locations that were set for them.
* `filterComments_eq` — taking comments out of events is taking them out of the placements.
* `filterComments_append` — what was passed on stays, and only a location that comes last waits.
* `exists_of_filterComments_eq` — each location that is passed on is followed at once by the event
  that it was set for.
* `filterComments_traceless` — what is passed on of any events, of events with one location before
  each, and of the events of nodes.
-/

namespace Event

/-! ### Placements -/

/-- Whether an event is a comment. -/
def isComment : Event → Bool
  | comment _ => true
  | _ => false

/-- The location that an event sets, if it is one. -/
def location? : Event → Option Location
  | locate l => some l
  | _ => none

/-- The events that are no locations, each with the location that was set for it: the one directly
    before it, if there is one. `held` is the location directly before the first event. -/
def placementsFrom (held : Option Location) : List Event → List (Option Location × Event)
  | [] => []
  | .locate l :: es => placementsFrom (some l) es
  | e :: es => (held, e) :: placementsFrom none es

/-- The events that are no locations, each with the location that was set for it. -/
def placements (es : List Event) : List (Option Location × Event) := placementsFrom none es

/-- An event after the location that was set for it. -/
def written (p : Option Location × Event) : List Event := heldBack p.1 ++ [p.2]

theorem placementsFrom_cons {e : Event} (he : ∀ l, e ≠ .locate l) (held : Option Location)
    (es : List Event) : placementsFrom held (e :: es) = (held, e) :: placementsFrom none es := by
  cases e with
  | locate l => exact absurd rfl (he l)
  | _ => rfl

/-- No location is placed by another one. -/
theorem ne_locate_of_mem_placementsFrom {held : Option Location} {es : List Event}
    {p : Option Location × Event} (hp : p ∈ placementsFrom held es) : ∀ l, p.2 ≠ .locate l := by
  induction es generalizing held with
  | nil => cases hp
  | cons e es ih =>
    by_cases he : ∃ l, e = .locate l
    · obtain ⟨l, rfl⟩ := he
      exact ih hp
    · rw [not_exists] at he
      rw [placementsFrom_cons he, List.mem_cons] at hp
      obtain rfl | hp := hp
      · exact he
      · exact ih hp

/-- Events that were written down with their locations are placed by these. -/
theorem placements_flatMap_written {ps : List (Option Location × Event)}
    (h : ∀ p ∈ ps, ∀ l, p.2 ≠ .locate l) : placements (ps.flatMap written) = ps := by
  induction ps with
  | nil => rfl
  | cons p ps ih =>
    rw [List.forall_mem_cons] at h
    have hp : ∀ es, placements (written p ++ es) = p :: placements es := by
      obtain ⟨held, e⟩ := p
      cases held <;> exact fun es => placementsFrom_cons h.1 _ es
    rw [List.flatMap_cons, hp, ih h.2]

end Event

/-! ### Filtering -/

namespace Event

/-- Whether a placed event stays when comments are taken out unless `keep` is set. -/
def stays (keep : Bool) (p : Option Location × Event) : Bool := keep || !p.2.isComment

theorem stays_iff {keep : Bool} {p : Option Location × Event} :
    stays keep p = true ↔ keep = true ∨ ∀ t, p.2 ≠ .comment t := by
  obtain ⟨held, e⟩ := p
  cases keep <;> cases e <;> simp [stays, isComment]

/-- An event is a location, or it stays, or it is a comment that is taken out. -/
theorem stays_cases (keep : Bool) (e : Event) :
    (∃ l, e = .locate l) ∨ ((∀ l, e ≠ .locate l) ∧ (keep = true ∨ ∀ t, e ≠ .comment t)) ∨
      (keep = false ∧ ∃ t, e = .comment t) := by
  cases e with
  | locate l => exact .inl ⟨l, rfl⟩
  | comment t =>
    cases keep with
    | false => exact .inr (.inr ⟨rfl, t, rfl⟩)
    | true => exact .inr (.inl ⟨by simp, .inl rfl⟩)
  | _ => exact .inr (.inl ⟨by simp, .inr (by simp)⟩)

theorem location?_eq_none {e : Event} (he : ∀ l, e ≠ .locate l) : e.location? = none := by
  cases e with
  | locate l => exact absurd rfl (he l)
  | _ => rfl

end Event

/-- Taking comments out is taking them out of the placements, whatever comes directly before. -/
theorem filterCommentsFrom_eq (keep : Bool) (held : Option Location) (es : List Event) :
    filterCommentsFrom keep held es
      = ((Event.placementsFrom held es).filter (Event.stays keep)).flatMap Event.written := by
  induction es generalizing held with
  | nil => rfl
  | cons e es ih =>
    obtain ⟨l, rfl⟩ | ⟨he, hstays⟩ | ⟨rfl, t, rfl⟩ := Event.stays_cases keep e
    · exact ih (some l)
    · have hfilter : Event.stays keep (held, e) = true := Event.stays_iff.mpr hstays
      rw [filterCommentsFrom_cons he hstays, ih none, Event.placementsFrom_cons he,
        List.filter_cons_of_pos hfilter, List.flatMap_cons, Event.written, List.append_assoc]
      rfl
    · exact ih none

/-- **Taking comments out** of events is taking them out of the placements. -/
theorem filterComments_eq (keep : Bool) (es : List Event) :
    filterComments keep es
      = ((Event.placements es).filter (Event.stays keep)).flatMap Event.written :=
  filterCommentsFrom_eq keep none es

/-- **Taking comments out twice** is taking them out once, if either time they are not kept. -/
theorem filterComments_filterComments (keep keep' : Bool) (es : List Event) :
    filterComments keep (filterComments keep' es) = filterComments (keep && keep') es := by
  have hplacements : Event.placements (filterComments keep' es)
      = (Event.placements es).filter (Event.stays keep') := by
    rw [filterComments_eq]
    exact Event.placements_flatMap_written fun p hp =>
      Event.ne_locate_of_mem_placementsFrom (List.mem_filter.mp hp).1
  rw [filterComments_eq, hplacements, List.filter_filter, filterComments_eq]
  congr 1
  refine List.filter_congr fun p _ => ?_
  exact (Bool.or_and_distrib_right ..).symm

theorem comment_notMem_filterComments (t : String) (es : List Event) :
    .comment t ∉ filterComments false es := by
  rw [filterComments_eq, List.mem_flatMap]
  rintro ⟨⟨held, e⟩, hp, hmem⟩
  rw [Event.written, List.mem_append, List.mem_singleton] at hmem
  obtain hheld | rfl := hmem
  · cases held <;> simp [heldBack] at hheld
  · -- a comment does not stay
    exact absurd (List.mem_filter.mp hp).2 Bool.false_ne_true

/-- Of events with one location before each, exactly the comments go, with their locations. -/
theorem filterComments_unlocated (keep : Bool) {ps : List (Location × Event)}
    (h : ∀ p ∈ ps, ∀ l, p.2 ≠ .locate l) :
    filterComments keep (Event.unlocated ps)
      = Event.unlocated (ps.filter fun p => keep || !p.2.isComment) := by
  have hwritten : ∀ ps : List (Location × Event), Event.unlocated ps
      = (ps.map fun p => (some p.1, p.2)).flatMap Event.written := by
    intro ps
    rw [List.flatMap_map]
    rfl
  have hplacements : ∀ p ∈ ps.map fun p => (some p.1, p.2), ∀ l, p.2 ≠ .locate l := by
    rwa [List.forall_mem_map]
  rw [hwritten, filterComments_eq, Event.placements_flatMap_written hplacements, List.filter_map,
    ← hwritten]
  rfl

/-! ### What waits -/

/-- What was passed on stays when more events come, and a location that came last waits for them. -/
theorem filterCommentsFrom_append (keep : Bool) (held : Option Location) (es fs : List Event) :
    filterCommentsFrom keep held (es ++ fs)
      = filterCommentsFrom keep held es
        ++ filterCommentsFrom keep ((es.getLast?.map Event.location?).getD held) fs := by
  induction es generalizing held with
  | nil => rfl
  | cons e es ih =>
    have hlast : ((e :: es).getLast?.map Event.location?).getD held
        = (es.getLast?.map Event.location?).getD e.location? := by
      rw [List.getLast?_cons, Option.map_some, Option.getD_some, Option.getD_map]
    rw [hlast]
    obtain ⟨l, rfl⟩ | ⟨he, hstays⟩ | ⟨rfl, t, rfl⟩ := Event.stays_cases keep e
    · exact ih (some l)
    · rw [List.cons_append, filterCommentsFrom_cons he hstays, filterCommentsFrom_cons he hstays,
        ih none, Event.location?_eq_none he, List.append_assoc, List.cons_append]
    · exact ih none

/-- **Taking comments out goes along with the events**: what was passed on stays when more of them
    come, and only a location that came last waits for them. -/
theorem filterComments_append (keep : Bool) (es fs : List Event) :
    filterComments keep (es ++ fs)
      = filterComments keep es
        ++ filterCommentsFrom keep (es.getLast?.bind Event.location?) fs := by
  rw [filterComments, filterCommentsFrom_append, filterComments]
  cases es.getLast? <;> rfl

/-- An event that stays is passed on with the location directly before it, if there is one. -/
theorem filterComments_append_cons {keep : Bool} {e : Event} (he : ∀ l, e ≠ .locate l)
    (hstays : keep = true ∨ ∀ t, e ≠ .comment t) (before after : List Event) :
    filterComments keep (before ++ e :: after)
      = filterComments keep before
        ++ (heldBack (before.getLast?.bind Event.location?)
          ++ e :: filterComments keep after) := by
  rw [filterComments_append, filterCommentsFrom_cons he hstays]
  rfl

/-! ### Locations that are passed on -/

/-- A location among events that are passed on one after another is the one before the first event,
    or comes after this event. -/
theorem heldBack_append_cons_eq {held : Option Location} {l : Location} {e : Event}
    {es before after : List Event} (he : ∀ l, e ≠ .locate l)
    (h : heldBack held ++ e :: es = before ++ .locate l :: after) :
    (held = some l ∧ before = [] ∧ after = e :: es) ∨
      ∃ mid, before = heldBack held ++ e :: mid ∧ es = mid ++ .locate l :: after := by
  -- past the event that is no location the split is one of the rest
  have hnext : ∀ before, e :: es = before ++ .locate l :: after →
      ∃ mid, before = e :: mid ∧ es = mid ++ .locate l :: after := by
    intro before h
    cases before with
    | nil => exact absurd (List.cons.inj h).1 (he l)
    | cons x mid =>
      obtain ⟨rfl, hes⟩ := List.cons.inj h
      exact ⟨mid, rfl, hes⟩
  -- the location is the one held back, or it comes after the event
  cases held with
  | none => exact .inr (hnext before h)
  | some l' =>
    cases before with
    | nil =>
      obtain ⟨hl, hafter⟩ := List.cons.inj h
      exact .inl ⟨congrArg some (Event.locate.inj hl), rfl, hafter.symm⟩
    | cons x before =>
      obtain ⟨rfl, hrest⟩ := List.cons.inj h
      obtain ⟨mid, rfl, hes⟩ := hnext before hrest
      exact .inr ⟨mid, rfl, hes⟩

/-- A location that is passed on was set for the event that comes at once after it. `held` is the
    location directly before the first event. -/
theorem exists_of_filterCommentsFrom_eq {keep : Bool} {l : Location} {after es : List Event}
    {held : Option Location} {before : List Event}
    (h : filterCommentsFrom keep held es = before ++ .locate l :: after) :
    ∃ e pre post, (∀ l', e ≠ .locate l') ∧ heldBack held ++ es = pre ++ .locate l :: e :: post ∧
      before = filterComments keep pre ∧ after = e :: filterComments keep post := by
  induction es generalizing held before with
  | nil => simp [filterCommentsFrom] at h
  | cons x es ih =>
    have hheld : ∀ fs,
        filterComments keep (heldBack held ++ fs) = filterCommentsFrom keep held fs := by
      cases held <;> exact fun fs => rfl
    have hpre : ∀ {pre fs : List Event}, heldBack none ++ es = pre ++ fs →
        heldBack held ++ x :: es = heldBack held ++ x :: pre ++ fs := by
      rintro pre fs hes
      rw [List.append_assoc, List.cons_append, ← hes]
      rfl
    obtain ⟨l', rfl⟩ | ⟨hx, hstays⟩ | ⟨rfl, t, rfl⟩ := Event.stays_cases keep x
    · obtain ⟨e, pre, post, he, hes, rfl, rfl⟩ := @ih (some l') before h
      -- the location that was held back is overtaken, and nothing is passed on of it
      have hplaced : Event.Placed pre := by
        cases pre with
        | nil => exact .inl rfl
        | cons y pre =>
          obtain rfl := (List.cons.inj hes).1
          exact Event.placed_locate _ _
      refine ⟨e, heldBack held ++ pre, post, he, ?_, ?_, rfl⟩
      · rw [List.append_assoc, ← hes]
        rfl
      · rw [hheld, hplaced.filterCommentsFrom, filterComments]
    · rw [filterCommentsFrom_cons hx hstays] at h
      obtain ⟨rfl, rfl, rfl⟩ | ⟨mid, rfl, hmid⟩ := heldBack_append_cons_eq hx h
      · exact ⟨x, [], es, hx, rfl, rfl, rfl⟩
      · obtain ⟨e, pre, post, he, hes, rfl, rfl⟩ := ih hmid
        refine ⟨e, heldBack held ++ x :: pre, post, he, hpre hes, ?_, rfl⟩
        rw [hheld, filterCommentsFrom_cons hx hstays, filterComments]
    · -- a comment that is taken out takes the location that was held back with it
      obtain ⟨e, pre, post, he, hes, rfl, rfl⟩ := @ih none before h
      exact ⟨e, heldBack held ++ .comment t :: pre, post, he, hpre hes,
        (hheld (.comment t :: pre)).symm, rfl⟩

/-- **A location that is passed on** was set for the event that comes at once after it: what is
    passed on before it is what comes of the events before it, and so after this event. -/
theorem exists_of_filterComments_eq {keep : Bool} {l : Location} {es before after : List Event}
    (h : filterComments keep es = before ++ .locate l :: after) :
    ∃ e pre post, (∀ l', e ≠ .locate l') ∧ es = pre ++ .locate l :: e :: post ∧
      before = filterComments keep pre ∧ after = e :: filterComments keep post :=
  exists_of_filterCommentsFrom_eq h

/-! ### No trace -/

/-- **Taking comments out leaves no trace of them.** At each moment, whatever events have come, no
    comment was passed on and never two locations in a row, each location that was passed on is
    followed at once by the event that it was set for, and every event that is neither a location
    nor a comment was passed on, with the location directly before it if there is one. Of events with
    one location before each, exactly the comments go, each with its location, and everything is
    passed on if comments are kept. So the events of nodes become those of the nodes without the
    comments among and inside them. Doing it twice is doing it once. -/
theorem filterComments_traceless :
    (∀ es : List Event,
      (∀ more, filterComments false es <+: filterComments false (es ++ more)) ∧
      (∀ t, .comment t ∉ filterComments false es) ∧
      (∀ before l l' after,
        filterComments false es ≠ before ++ .locate l :: .locate l' :: after) ∧
      ∀ before l after, filterComments false es = before ++ .locate l :: after →
        ∃ e pre post, (∀ l', e ≠ .locate l') ∧ es = pre ++ .locate l :: e :: post ∧
          before = filterComments false pre ∧ after = e :: filterComments false post) ∧
    (∀ e : Event, (∀ l, e ≠ .locate l) → (∀ t, e ≠ .comment t) → ∀ before after,
      filterComments false (before ++ e :: after)
        = filterComments false before
          ++ (heldBack (before.getLast?.bind Event.location?)
            ++ e :: filterComments false after)) ∧
    (∀ ps : List (Location × Event), (∀ p ∈ ps, ∀ l, p.2 ≠ .locate l) →
      filterComments false (Event.unlocated ps)
          = Event.unlocated (ps.filter fun p => !p.2.isComment) ∧
        filterComments true (Event.unlocated ps) = Event.unlocated ps) ∧
    (∀ ns : List Node,
      filterComments false (Node.eventsAll ns) = Node.eventsAll (Node.uncommentedAll ns) ∧
        filterComments true (Node.eventsAll ns) = Node.eventsAll ns) ∧
    ∀ (keep : Bool) (es : List Event),
      filterComments keep (filterComments keep es) = filterComments keep es := by
  refine ⟨fun es => ⟨fun more => ?_, fun t => comment_notMem_filterComments t es,
    fun before l l' after h => ?_, fun before l after h => exists_of_filterComments_eq h⟩,
    fun e he hcomment => filterComments_append_cons he (.inr hcomment), fun ps hps => ⟨?_, ?_⟩,
    fun ns => ⟨Node.filterComments_eventsAll false ns, Node.filterComments_eventsAll true ns⟩,
    fun keep es => ?_⟩
  · rw [filterComments_append]
    exact List.prefix_append _ _
  · -- the second location would be the event that the first one was set for
    obtain ⟨e, pre, post, he, -, -, hafter⟩ := exists_of_filterComments_eq h
    exact he l' (List.cons.inj hafter).1.symm
  · exact filterComments_unlocated false hps
  · rw [filterComments_unlocated true hps]
    exact congrArg Event.unlocated (List.filter_eq_self.mpr fun p _ => rfl)
  · rw [filterComments_filterComments, Bool.and_self]

/-- A location that is overtaken, a comment without a location, a comment whose location goes with
    it, an event that it leaves without one, and a location that comes last. -/
theorem filterComments_traceless_untidy :
    let mark (offset : Nat) : Location := .ofMark "doc" ⟨offset, 1, offset + 1⟩
    let before : List Event := [.locate (mark 0), .locate (mark 1), .opening .paren, .comment "c",
      .locate (mark 2), .comment "d"]
    let after : List Event := [.locate (mark 3), .closing .paren, .locate (mark 4)]
    let ps : List (Location × Event) := [(mark 0, .opening .paren), (mark 1, .comment "c"),
      (mark 2, .closing .paren)]
    (∃ e pre post, (∀ l', e ≠ .locate l') ∧
      before ++ .atom "x" :: after = pre ++ .locate (mark 3) :: e :: post ∧
      [.locate (mark 1), .opening .paren, .atom "x"] = filterComments false pre ∧
      [.closing .paren] = e :: filterComments false post) ∧
    filterComments false (before ++ .atom "x" :: after)
      = filterComments false before ++ .atom "x" :: filterComments false after ∧
    filterComments false (Event.unlocated ps)
      = Event.unlocated [(mark 0, .opening .paren), (mark 2, .closing .paren)] := by
  intro mark before after ps
  obtain ⟨hany, hkept, hplaced, -, -⟩ := filterComments_traceless
  have hps : ∀ p ∈ ps, ∀ l, p.2 ≠ .locate l := by simp [ps]
  obtain ⟨-, -, -, hset⟩ := hany (before ++ .atom "x" :: after)
  exact ⟨hset [.locate (mark 1), .opening .paren, .atom "x"] (mark 3) [.closing .paren] rfl,
    hkept (.atom "x") (by simp) (by simp) before after, (hplaced ps hps).1⟩

end Formwork
