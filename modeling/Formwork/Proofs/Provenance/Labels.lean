import Formwork.Proofs.Provenance.Including
import Formwork.Proofs.References.Complete

namespace Formwork

/-!
# Labels inside the document

The labels of a report mark bytes of the root document: the outermost position of each location is a
mark of it, and only an atom that has a single position is as long as its value. Such an atom has
been written in the root document as it is, so its label ends inside it, unless a built-in rule has
made the atom: that stands where the call starts, and may be longer than what is left of the text.

* `Event.Written.bytes_le` — a value takes up no more bytes than what it is written as.
* `Standing.inside` — where nodes stand that have labels inside a text.
* `stands_checkReferences` — reports about references are about nodes of the document.
* `Options.check_labels` — the labels of all reports about a document.
-/

/-! ### Bytes -/

/-- The number of bytes of some characters. -/
def bytes (cs : List Char) : Nat := (String.ofList cs).utf8ByteSize

@[simp] theorem bytes_nil : bytes [] = 0 := rfl

@[simp] theorem bytes_append (cs ds : List Char) : bytes (cs ++ ds) = bytes cs + bytes ds := by
  simp [bytes]

@[simp] theorem bytes_cons (c : Char) (cs : List Char) :
    bytes (c :: cs) = c.utf8Size + bytes cs := by
  simp [bytes]

/-- Some text is some bytes. -/
theorem bytes_pos {cs : List Char} (h : cs ≠ []) : 0 < bytes cs := by
  obtain ⟨c, cs, rfl⟩ := List.exists_cons_of_ne_nil h
  have hc := c.utf8Size_pos
  rw [bytes_cons]
  omega

/-- The characters that are meant take up no more bytes than they are written with. -/
theorem Piece.bytes_value_le (pieces : List Piece) :
    bytes (pieces.map value) ≤ bytes (pieces.flatMap chars) := by
  induction pieces with
  | nil => exact Nat.le_refl _
  | cons p pieces ih =>
    have hp : p.value.utf8Size ≤ bytes p.chars := by
      cases p <;> simp [value, chars]
    rw [List.map_cons, List.flatMap_cons, bytes_cons, bytes_append]
    omega

namespace Event.Written

variable {rest : List Char} {e : Event}

/-- Something is written where an event stands. -/
theorem ne_nil (h : e.Written rest) : rest ≠ [] := by
  cases h <;> simp

/-- A value takes up no more bytes than what it is written as. -/
theorem bytes_le {value : String} (h : (atom value).Written rest) :
    value.utf8ByteSize ≤ bytes rest := by
  cases h with
  | quoted pieces after =>
    have hpieces : (String.ofList (pieces.map Piece.value)).utf8ByteSize
        ≤ bytes (pieces.flatMap Piece.chars) := Piece.bytes_value_le pieces
    simp only [bytes_cons, bytes_append]
    omega
  | unterminated pieces dangling =>
    have hpieces : (String.ofList (pieces.map Piece.value)).utf8ByteSize
        ≤ bytes (pieces.flatMap Piece.chars) := Piece.bytes_value_le pieces
    simp only [bytes_cons, bytes_append]
    omega
  | word first more after =>
    show bytes (first :: more) ≤ _
    simp only [bytes_cons, bytes_append]
    omega

end Event.Written

/-! ### Places of a text -/

/-- Whether a location starts in a text, and the text reads as given from there on. -/
def Location.Starts (text : String) (l : Location) (rest : List Char) : Prop :=
  ∃ p, l.outermost? = some p ∧ p.mark.Reads text rest

namespace Location

variable {text : String} {l : Location} {rest : List Char}

/-- The location of a mark is where the text that is read at the mark starts. -/
theorem starts_ofMark {origin : String} {m : Mark} (h : m.Reads text rest) :
    (ofMark origin m).Starts text rest := ⟨_, rfl, h⟩

/-- What a text reads from a location on takes up the bytes behind its offset. -/
theorem Starts.offset_add (h : l.Starts text rest) : l.offset + bytes rest = text.utf8ByteSize := by
  obtain ⟨p, hp, before, htext, hoffset, -⟩ := h
  have hsize : text.utf8ByteSize = bytes (before ++ rest) := by
    rw [← htext, bytes, String.ofList_toList]
  rw [offset, hp, hsize, bytes_append]
  exact congrArg (· + bytes rest) hoffset

/-- Whatever is crossed into, the location starts where it did. -/
theorem Starts.via (h : l.Starts text rest) (hop : Hop) (inner : Location) :
    (l.via hop inner).Starts text rest := by
  obtain ⟨p, hp, hreads⟩ := h
  obtain ⟨ps, hchain⟩ := List.head?_eq_some_iff.mp hp
  rw [Starts, outermost?, chain_via, hchain]
  cases ps with
  | nil => exact ⟨_, rfl, hreads⟩
  | cons q ps => exact ⟨p, rfl, hreads⟩

/-- A location in a text is in some document. -/
theorem Starts.depth_pos (h : l.Starts text rest) : 0 < l.depth := by
  obtain ⟨p, hp, -⟩ := h
  obtain ⟨ps, hchain⟩ := List.head?_eq_some_iff.mp hp
  simp [depth, hchain]

/-- A location that has crossed into another has more than one position. -/
theorem depth_via_ne_one {inner : Location} (h : 0 < l.depth) (hinner : 0 < inner.depth)
    (hop : Hop) : (l.via hop inner).depth ≠ 1 := by
  rw [depth_via]
  omega

end Location

/-- Whether a text goes on with a bracket that opens a group. -/
def AtGroup (rest : List Char) : Prop :=
  ∃ (d : Delim) (after : List Char), rest = d.opening :: after

/-- Where nodes stand whose labels are inside a text. An atom with a single position is no longer
    than the rest of the text, unless it was made where a group starts, if atoms may be made. -/
def Standing.inside (text : String) (made : Bool) : Standing where
  atom v l := ∃ rest, l.Starts text rest ∧ 0 < bytes rest ∧
    (l.depth = 1 → v.utf8ByteSize ≤ bytes rest ∨ made = true ∧ AtGroup rest)
  group l := ∃ rest, l.Starts text rest ∧ 0 < bytes rest ∧ (l.depth = 1 → AtGroup rest)
  place l := ∃ rest, l.Starts text rest ∧ 0 < bytes rest
  edge l := ∃ rest, l.Starts text rest
  place_of_atom := fun ⟨rest, hstarts, hrest, _⟩ => ⟨rest, hstarts, hrest⟩
  place_of_group := fun ⟨rest, hstarts, hrest, _⟩ => ⟨rest, hstarts, hrest⟩

namespace Standing

variable {text : String} {made : Bool}

/-- What the text itself says is inside it. -/
theorem covers_inside (origin : String) :
    (inside text made).Covers (.ofMark origin) text where
  event {m rest e} hreads hwritten := by
    have hstarts : (Location.ofMark origin m).Starts text rest := Location.starts_ofMark hreads
    have hpos : 0 < bytes rest := bytes_pos hwritten.ne_nil
    have hplace : (inside text made).place (.ofMark origin m) := ⟨rest, hstarts, hpos⟩
    cases e with
    | locate => cases hwritten
    | opening d =>
      cases hwritten with
      | opening _ after => exact ⟨_, hstarts, hpos, fun _ => ⟨d, after, rfl⟩⟩
    | atom v => exact ⟨rest, hstarts, hpos, fun _ => .inl hwritten.bytes_le⟩
    | comment => exact hplace
    | closing => exact hplace
  edge hreads := ⟨_, Location.starts_ofMark hreads⟩

theorem depth_pos_of_place {l : Location} (h : (inside text made).place l) : 0 < l.depth := by
  obtain ⟨rest, hstarts, -⟩ := h
  exact hstarts.depth_pos

/-- Whatever is crossed into from inside the text may stand there: it has more than one position. -/
theorem stands_via {l inner : Location} (h : (inside text made).place l) (hinner : 0 < inner.depth)
    (hop : Hop) {e : Event} (he : ∀ l', e ≠ .locate l') :
    e.Stands (inside text made) (l.via hop inner) := by
  obtain ⟨rest, hstarts, hrest⟩ := h
  -- behind a hop nothing is written where it sits, so nothing is asked of its length
  have hdeep : (l.via hop inner).depth ≠ 1 :=
    Location.depth_via_ne_one hstarts.depth_pos hinner hop
  have hvia := hstarts.via hop inner
  cases e with
  | locate l' => exact absurd rfl (he l')
  | opening d => exact ⟨rest, hvia, hrest, fun h => absurd h hdeep⟩
  | atom v => exact ⟨rest, hvia, hrest, fun h => absurd h hdeep⟩
  | comment => exact ⟨rest, hvia, hrest⟩
  | closing => exact ⟨rest, hvia, hrest⟩

/-- Bodies are seen from calls, which are inside the text. -/
theorem crossesTemplates_inside : (inside text made).CrossesTemplates := by
  have hseen : ∀ {call l : Location}, (inside text made).group call → (inside text made).place l →
      ∀ e : Event, (∀ l', e ≠ .locate l') → e.Stands (inside text made) (call.via .template l) :=
    fun hcall hl e he =>
      stands_via ((inside text made).place_of_group hcall) (depth_pos_of_place hl) .template he
  constructor
  · intro call v l hcall hl
    exact hseen hcall ((inside text made).place_of_atom hl) (.atom v) (by simp)
  · intro call l hcall hl
    exact hseen hcall ((inside text made).place_of_group hl) (.opening .paren) (by simp)
  · intro call l hcall hl
    exact hseen hcall hl (.closing .paren) (by simp)

/-- Included documents are seen from the forms that include them, which are inside the text. -/
theorem crossesIncludes_inside (docs : Documents) (id : String) :
    (inside text made).CrossesIncludes docs id := by
  intro form id' text' hform _ _
  have hplace : (inside text made).place form := (inside text made).place_of_group hform
  constructor
  · intro m rest e _ hwritten
    have hdepth : 0 < (Location.ofMark id' m).depth := Nat.zero_lt_one
    exact stands_via hplace hdepth .inclusion fun l' he => by subst he; cases hwritten
  · intro m rest _
    obtain ⟨rest, hstarts, -⟩ := hplace
    exact ⟨rest, hstarts.via .inclusion _⟩

end Standing

/-! ### Reports about references -/

/-- **Reports about references are about nodes of the document**, so they stand where these do. -/
theorem stands_checkReferences {Q : Standing} (scopes : Scopes) {ns : List Node}
    (h : Node.StandsAll Q ns) : Report.StandsAll Q (checkReferences scopes ns).2 := by
  have hinside : ∀ n ∈ ns.flatMap Node.preorder, n.Stands Q := by
    rw [List.forall_mem_flatMap]
    exact fun n hn => (Node.standsAll_iff.mp h n hn).of_mem_preorder
  obtain ⟨resolved, -, hcheck⟩ := ReferenceChecker.check_eq scopes ns
  rw [checkReferences, hcheck]
  -- the reports are of repeated namings, and of references that were not met
  refine Report.StandsAll.append (fun r hr => ?_) (fun r hr => ?_)
  · obtain ⟨hlocations, hnodes⟩ := Naming.of_mem_repeatsAfter hr
    refine ⟨by simp [hlocations], Node.standsAll_iff.mpr fun n hn => ?_⟩
    obtain ⟨d, hd, rfl⟩ := hnodes n hn
    exact hinside _ (form_mem_preorder hd)
  · obtain ⟨q, hq, rfl⟩ := List.mem_map.mp hr
    exact Report.stands_atNode (hinside _ (site_mem_preorder (List.mem_of_mem_filter hq))) _

/-! ### Labels -/

/-- Whether a node is an unquoted atom that has been made in a text: it stands at a bracket, where
    no atom has been written. -/
def Node.MadeIn (text : String) : Node → Prop
  | .atom a => a.quoted = false ∧ a.location.depth = 1 ∧
      ∃ rest, a.location.Starts text rest ∧ AtGroup rest
  | _ => False

/-- The label of a node that stands inside a text. -/
theorem Node.Stands.offset_add_span {text : String} {made : Bool} {n : Node}
    (h : n.Stands (.inside text made)) :
    n.location.offset + 1 ≤ text.utf8ByteSize ∧
      (n.location.offset + Report.span n ≤ text.utf8ByteSize ∨ made = true ∧ n.MadeIn text) := by
  obtain ⟨rest, hstarts, hrest⟩ := h.location
  have hsize := hstarts.offset_add
  have hone : n.location.offset + 1 ≤ text.utf8ByteSize := by omega
  refine ⟨hone, ?_⟩
  cases n with
  | comment c => exact .inl hone
  | group d cs l s => exact .inl hone
  | atom a =>
    -- only an atom that is not quoted, written where it sits, is underlined as a whole
    by_cases hwhole : (!a.quoted && a.location.depth == 1) = true
    · obtain ⟨hquoted, hdepth⟩ : a.quoted = false ∧ a.location.depth = 1 := by simpa using hwhole
      obtain ⟨rest, hstarts, hrest, hvalue⟩ := h
      have hsize := hstarts.offset_add
      have hspan : Report.span (.atom a) = max 1 a.value.utf8ByteSize := if_pos hwhole
      -- it is as long as it is written, or it was made at the call and has a length of its own
      rcases hvalue hdepth with hfits | ⟨hmade, hgroup⟩
      · left
        rw [hspan]
        show a.location.offset + max 1 a.value.utf8ByteSize ≤ text.utf8ByteSize
        omega
      · exact .inr ⟨hmade, hquoted, hdepth, rest, hstarts, hgroup⟩
    · have hspan : Report.span (.atom a) = 1 := if_neg hwhole
      rw [hspan]
      exact .inl hone

/-- **Labels stay inside the document**, except for the end of a label of an atom that a built-in
    rule has made of a group of the document: the label starts at the group, and is as long as the
    atom. -/
theorem Options.check_labels (o : Options) (docs : Documents) (levels : Nat) (id text : String)
    {c : Checked} (h : o.check docs levels id text = some c) :
    ∀ r ∈ c.reports, ∀ label ∈ r.labels,
      label.offset ≤ text.utf8ByteSize ∧
        (label.offset + label.length ≤ text.utf8ByteSize ∨
          o.builtinRules = true ∧ ∃ n ∈ r.nodes, n.MadeIn text ∧
            label.offset = n.location.offset ∧ label.length = Report.span n) := by
  let Q : Standing := .inside text o.builtinRules
  have hmade : o.builtinRules = true → ∀ v l, Q.group l → Q.atom v l := by
    rintro hbuiltin v l ⟨rest, hstarts, hrest, hgroup⟩
    exact ⟨rest, hstarts, hrest, fun hdepth => .inr ⟨hbuiltin, hgroup hdepth⟩⟩
  obtain ⟨p, hp, rfl⟩ := Option.map_eq_some_iff.mp h
  obtain ⟨hnodes, hreports⟩ := o.stands_expandWithIncludes (Standing.covers_inside id)
    (Standing.crossesIncludes_inside docs id) Standing.crossesTemplates_inside hmade hp
  have hall : Report.StandsAll Q (p.reports ++ (checkReferences o.scopes p.nodes).2) :=
    hreports.append (stands_checkReferences o.scopes hnodes)
  intro r hr label hlabel
  obtain ⟨hlocations, hrnodes⟩ := hall r hr
  rcases List.mem_append.mp hlabel with hlabel | hlabel
  · -- an explicit location may be the end of the text, and its label has no length
    obtain ⟨l, hl, rfl⟩ := List.mem_map.mp hlabel
    obtain ⟨rest, hstarts⟩ := hlocations l hl
    have hsize := hstarts.offset_add
    have hoffset : l.offset ≤ text.utf8ByteSize := by omega
    exact ⟨hoffset, .inl hoffset⟩
  · obtain ⟨n, hn, rfl⟩ := List.mem_map.mp hlabel
    obtain ⟨hone, hspan⟩ := (Node.standsAll_iff.mp hrnodes n hn).offset_add_span
    refine ⟨Nat.le_of_succ_le hone, ?_⟩
    rcases hspan with hspan | ⟨hbuiltin, hmadeIn⟩
    · exact .inl hspan
    · exact .inr ⟨hbuiltin, n, hn, hmadeIn, rfl, rfl⟩

/-- A group that is never closed, a reference in an included document, one in a call of a template,
    one that a built-in rule has made, and one that stands in the text. -/
theorem Options.check_labels_mixed :
    let docs := Documents.ofList [("lib", "(template pair (@1) [@1]) #gone")]
    let text := "(include lib) (pair #é) (concat # hi) (f #g"
    ∃ c, ({} : Options).check docs 1 "main" text = some c ∧
      c.reports.map Report.labels
        = [[⟨44, 0, "here"⟩], [⟨0, 1, "referenced here"⟩], [⟨20, 3, "referenced here"⟩],
          [⟨25, 3, "referenced here"⟩], [⟨42, 2, "referenced here"⟩]] ∧
      ∀ r ∈ c.reports, ∀ label ∈ r.labels,
        label.offset ≤ text.utf8ByteSize ∧
          (label.offset + label.length ≤ text.utf8ByteSize ∨
            ({} : Options).builtinRules = true ∧ ∃ n ∈ r.nodes, n.MadeIn text ∧
              label.offset = n.location.offset ∧ label.length = Report.span n) := by
  intro docs text
  have hrun : ((({} : Options).check docs 1 "main" text).map fun c => c.reports.map Report.labels)
      = some [[⟨44, 0, "here"⟩], [⟨0, 1, "referenced here"⟩], [⟨20, 3, "referenced here"⟩],
          [⟨25, 3, "referenced here"⟩], [⟨42, 2, "referenced here"⟩]] := by decide +kernel
  obtain ⟨c, hc, hlabels⟩ := Option.map_eq_some_iff.mp hrun
  exact ⟨c, hc, hlabels, check_labels {} docs 1 "main" text hc⟩

/-- A reference that is joined from parts may be longer than the call, and then its label goes on
    behind the end of the document. -/
theorem Options.check_label_joined :
    let text := "(concat separator: 123456789 # b c d e)"
    ∃ c, ({} : Options).check (.ofList []) 1 "main" text = some c ∧
      ∃ r ∈ c.reports, ∃ label ∈ r.labels, text.utf8ByteSize < label.offset + label.length := by
  intro text
  have hrun : ((({} : Options).check (.ofList []) 1 "main" text).map fun c =>
      c.reports.map Report.labels) = some [[⟨0, 41, "referenced here"⟩]] := by decide +kernel
  obtain ⟨c, hc, hlabels⟩ := Option.map_eq_some_iff.mp hrun
  obtain ⟨r, hreports, hr⟩ := List.map_eq_singleton_iff.mp hlabels
  refine ⟨c, hc, r, by simp [hreports], ⟨0, 41, "referenced here"⟩, by simp [hr], ?_⟩
  decide

end Formwork
