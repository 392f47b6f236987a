import Formwork.Proofs.Pipeline.Independent

namespace Formwork

/-!
# Forms that name their target

Most include forms are written as their head and the name of a document. Such a form has nothing
inside it to be replaced, so it is handed over as it was scanned, and what happens to it depends
only on the documents that go through.

* `Node.target?` — the target of a form that is written so.
* `like_parseFrom` — the text of a document reads the same from every form.
* `Includer.going` — the documents that are active.
* `Includer.rewriteNode_target` — a form is handed over as it stands; what happens then is said by
  `replace_active`, `replace_missing` and `replace_found`.
-/

open Likeness (shape)

/-! ### Reading a form -/

namespace Node

variable {n : Node} {e : String}

/-- The target of a form that consists of its head and one atom, which is no keyword. -/
def target? (n : Node) : Option String :=
  match n.exprs with
  | [.atom _, .atom x] => if x.keyword?.isNone then some x.value else none
  | _ => none

/-- A form with a target is two atoms, comments apart. -/
theorem exprs_of_target? (h : n.target? = some e) :
    ∃ a x, n.exprs = [.atom a, .atom x] ∧ x.keyword? = none ∧ x.value = e := by
  unfold target? at h
  split at h
  case h_1 a x hexprs =>
    split at h
    case isTrue hkeyword =>
      exact ⟨a, x, hexprs, Option.isNone_iff_eq_none.mp hkeyword, Option.some.inj h⟩
    case isFalse => cases h
  case h_2 => cases h

/-- A form with a target has no groups inside. -/
theorem isGroup_of_target? (h : n.target? = some e) : ∀ c ∈ n.children, c.isGroup = false := by
  obtain ⟨a, x, hexprs, -, -⟩ := exprs_of_target? h
  intro c hc
  by_cases hcomment : c.isComment = true
  · cases c with
    | comment => rfl
    | atom => cases hcomment
    | group => cases hcomment
  · have hmem : c ∈ n.exprs := List.mem_filter.mpr ⟨hc, by simpa using hcomment⟩
    rw [hexprs, List.mem_cons, List.mem_singleton] at hmem
    rcases hmem with rfl | rfl <;> rfl

/-- The target is the one that the form is read to name. -/
theorem includeTarget_of_target? (h : n.target? = some e) : includeTarget n = .ok e := by
  obtain ⟨a, x, hexprs, hkeyword, rfl⟩ := exprs_of_target? h
  simp [includeTarget, tail, hexprs, firstAtomArgument, atom?, hkeyword]

end Node

/-- Twins have the same target. -/
theorem Likeness.Twin.target? {L : Likeness} {n m : Node} (h : L.Twin n m) :
    m.target? = n.target? := by
  have hexprs := h.exprs
  unfold Node.target?
  -- only the expressions are looked at: a target is the second of exactly two
  generalize n.exprs = ns at hexprs ⊢
  generalize m.exprs = ms at hexprs ⊢
  cases hexprs with
  | nil => rfl
  | cons ha hrest =>
    cases hrest with
    | nil => cases ha <;> rfl
    | cons hx hrest =>
      cases hrest with
      | cons => cases ha <;> cases hx <;> rfl
      | nil =>
        have hkeyword := hx.keyword?
        cases ha with
        | group => rfl
        | atom =>
          cases hx with
          | group => rfl
          | atom hvalue =>
            simp only [Node.keyword?, Node.atom?, Option.bind_some] at hkeyword
            simp only [hkeyword, hvalue]

/-! ### Scanning from a form -/

/-- The text of a document, scanned as a form includes it. -/
def parseFrom (form : Node) (limit : Nat) (id text : String) : List Node × List Report :=
  parse { origin := id, base := some form.location, limit } text

/-- A text is scanned from a form as it is on its own, but for the locations. -/
theorem like_parseFrom (form : Node) (limit : Nat) (id text : String) :
    Like shape (parse { origin := id, limit } text).1 (parseFrom form limit id text).1 ∧
      Report.LikeAll shape (parse { origin := id, limit } text).2
        (parseFrom form limit id text).2 := by
  have hlimit : ({ origin := id, base := some form.location, limit } : Source).limit
      = ({ origin := id, limit } : Source).limit := rfl
  exact like_parse hlimit text

namespace Includer

variable {docs : List (String × String)} {s : Includer} {form : Node} {e : String}

/-! ### What is active -/

/-- The documents that are active: those that go through, innermost first, and the root. -/
def going (s : Includer) : List String := s.included.map Included.id ++ s.root.toList

theorem isActive_iff : s.isActive e = true ↔ e ∈ s.going := by
  simp only [isActive, going, Bool.or_eq_true, decide_eq_true_eq, List.any_eq_true, List.mem_append,
    List.mem_map, Option.mem_toList, or_comm]

@[simp] theorem going_adding (s : Includer) (rs : List Report) (asked : List String) :
    (s.adding rs asked).going = s.going := rfl

@[simp] theorem adding_adding (s : Includer) (rs qs : List Report) (asked asked' : List String) :
    (s.adding rs asked).adding qs asked' = s.adding (rs ++ qs) (asked' ++ asked) := by
  simp only [adding, List.append_assoc]

@[simp] theorem adding_nil (s : Includer) : s.adding [] [] = s := by
  simp only [adding, List.append_nil, List.nil_append]

theorem Sound.adding (h : s.Sound docs) (rs : List Report) (asked : List String) :
    (s.adding rs asked).Sound docs :=
  ⟨h.nodup, h.known⟩

/-- A document that begins to go through is active. -/
theorem going_including (s : Includer) (form : Node) (e text : String) (modulesOnly : Bool) :
    (s.including form e text modulesOnly).going = e :: s.going := rfl

/-! ### What happens to a form -/

/-- All the nodes of a document take the place of a form. -/
theorem spliced_all (s : Includer) (form : Node) (e text : String) :
    s.spliced form e text false = parseFrom form s.limit e text := rfl

/-- The nodes that a module include keeps take the place of a form. -/
theorem spliced_modules (s : Includer) (form : Node) (e text : String) :
    s.spliced form e text true
      = ((parseFrom form s.limit e text).1.filter keptByModules,
          (parseFrom form s.limit e text).2) :=
  rfl

section

variable {replay : List Node → Includer → Option (Includer × List Node)}

/-- A form that includes a document is a form. -/
theorem exists_word (hhead : form.headName? ∈ [some includeWord, some modulesWord]) :
    ∃ word ∈ [includeWord, modulesWord, rootOnlyWord], form.headName? = some word := by
  rw [List.mem_cons, List.mem_singleton] at hhead
  rcases hhead with h | h
  · exact ⟨_, by simp, h⟩
  · exact ⟨_, by simp, h⟩

/-- A form with a target is handed over as it stands. -/
theorem rewriteNode_target (docs : Documents) (s : Includer)
    (hhead : form.headName? ∈ [some includeWord, some modulesWord])
    (htarget : form.target? = some e) :
    (cutter docs).rewriteNode replay form s = (cutter docs).replace replay form s := by
  obtain ⟨word, hmem, hword⟩ := exists_word hhead
  obtain ⟨d, cs, l, stop, rfl⟩ := Node.exists_group_of_headName? hword
  have hask : (cutter docs).ask s (some word) = (s, true) := by
    simp only [Cutter.ask, cutter, if_pos hmem, Option.isSome_some]
  -- two atoms are all there is inside, and they stay
  have hcs : (cutter docs).rewriteAll replay cs s = some (s, cs) :=
    rewriteAll_of_no_groups (Node.isGroup_of_target? htarget)
  rw [Cutter.rewriteNode, hword, hask, hcs]
  rfl

/-- What is done with a form with a target is including the target. -/
theorem paste_form (docs : Documents) (s : Includer)
    (hhead : form.headName? ∈ [some includeWord, some modulesWord]) :
    (cutter docs).paste s (Builder.holding form)
      = s.includeDocument docs form (form.headName? = some modulesWord || s.filtering) := by
  show s.replace docs form = _
  rw [List.mem_cons, List.mem_singleton] at hhead
  rcases hhead with h | h <;> simp [replace, h, includeWord, modulesWord, rootOnlyWord]

/-- A document that is active is not included again, which is reported unless a module include is
    going on. -/
theorem replace_active (hhead : form.headName? ∈ [some includeWord, some modulesWord])
    (htarget : form.target? = some e) (hactive : e ∈ s.going) :
    (cutter (.ofList docs)).replace replay form s
      = some
          (s.adding (if s.filtering then [] else [.atNode (.recursiveInclude e) form]) [], []) := by
  have hidentify : (Documents.ofList docs).identify form = .ok e :=
    Node.includeTarget_of_target? htarget
  apply Cutter.replace_of_none
  rw [paste_form _ _ hhead, includeDocument, hidentify]
  simp only [isActive_iff.mpr hactive, if_true]
  split
  · rw [adding_nil]
  · rfl

/-- A document that there is not is reported. -/
theorem replace_missing (hhead : form.headName? ∈ [some includeWord, some modulesWord])
    (htarget : form.target? = some e) (hnew : e ∉ s.going) (hmissing : docs.lookup e = none) :
    (cutter (.ofList docs)).replace replay form s
      = some
          (s.adding [.atNode (.unresolvableInclude (IncludeFailure.notFound e).message) form] [e],
            []) := by
  have hidentify : (Documents.ofList docs).identify form = .ok e :=
    Node.includeTarget_of_target? htarget
  have hfetch : (Documents.ofList docs).fetch e = .error (.notFound e) := by
    simp only [Documents.ofList, hmissing]
  apply Cutter.replace_of_none
  rw [paste_form _ _ hhead, includeDocument, hidentify]
  simp only [isActive_iff, hnew, if_false, hfetch]
  rfl

/-- Any other document goes through in the place of the form. -/
theorem replace_found (hhead : form.headName? ∈ [some includeWord, some modulesWord])
    (htarget : form.target? = some e) (hnew : e ∉ s.going) {text : String}
    (htext : docs.lookup e = some text) :
    (cutter (.ofList docs)).replace replay form s
      = (replay (s.spliced form e text (form.headName? = some modulesWord || s.filtering)).1
          (s.including form e text (form.headName? = some modulesWord || s.filtering))).map
        fun r => ((cutter (.ofList docs)).pasted r.1, r.2) := by
  have hidentify : (Documents.ofList docs).identify form = .ok e :=
    Node.includeTarget_of_target? htarget
  have hfetch : (Documents.ofList docs).fetch e = .ok text := by
    simp only [Documents.ofList, htext]
  rw [← plainAll_spliced, ← Builder.build_eventsAll]
  apply Cutter.replace_of_some
  rw [paste_form _ _ hhead, includeDocument, hidentify]
  simp only [isActive_iff, hnew, if_false, hfetch]
  rfl

/-- A document that is not active keeps the stack sound. -/
theorem Sound.going_including (h : s.Sound docs) (hnew : e ∉ s.going) {text : String}
    (htext : docs.lookup e = some text) (form : Node) (modulesOnly : Bool) :
    (s.including form e text modulesOnly).Sound docs := by
  refine h.including ?_ ?_
  · rw [← Bool.not_eq_true, isActive_iff]
    exact hnew
  · simp only [Documents.ofList, htext]

/-- A group that is no form is not asked about. -/
theorem ask_other (docs : Documents) (s : Includer) {head : Option String}
    (hhead : ∀ word ∈ [includeWord, modulesWord, rootOnlyWord], head ≠ some word) :
    (cutter docs).ask s head = (s, false) := by
  cases head with
  | none => rfl
  | some name =>
    have hname : name ∉ [includeWord, modulesWord, rootOnlyWord] := fun h => hhead name h rfl
    simp only [Cutter.ask, cutter, if_neg hname, Option.isSome_none]

end

end Includer

end Formwork
