import Formwork.Proofs.Include.Forms

namespace Formwork

/-!
# What a module include keeps

A module include takes the modules of a document, and of all documents that it includes. Which of
the nodes on the top level are kept is decided when a document has been scanned; the forms among
them, and those inside the modules, are replaced only then, in a run that stays in this mode until
the document has gone through.

* `Filtered` — what is left of a document in this mode, inside a module or on the top level.
* `Filtered.headName?_eq` — nothing but modules is left on the top level.
* `Includer.rewrite_filters` — inside a document, the run of an includer in this mode ends, and
  leaves just that.
* `ModulesReplaced` — a root document with its module includes replaced.
* `includeSource_modules` — whole documents.
-/

open Includer (includeWord modulesWord rootOnlyWord moduleWord)

/-- Whether the forms among and inside nodes that include documents all have a target. -/
def NamesTargets (ns : List Node) : Prop :=
  ∀ g ∈ ns.flatMap Node.preorder,
    g.headName? ∈ [some includeWord, some modulesWord] → g.target?.isSome

instance (ns : List Node) : Decidable (NamesTargets ns) :=
  inferInstanceAs (Decidable (∀ g ∈ ns.flatMap Node.preorder, _ → _))

/-- Whether they do in all documents of a library. -/
def TargetsNamed (docs : List (String × String)) (limit : Nat) : Prop :=
  ∀ p ∈ docs, NamesTargets (parse { origin := p.1, limit } p.2).1

instance (docs : List (String × String)) (limit : Nat) : Decidable (TargetsNamed docs limit) :=
  inferInstanceAs (Decidable (∀ p ∈ docs, _))

/-! ### What is left of a document -/

/-- What is left of nodes of a document that goes through with only its modules kept, and what is
    reported: of the nodes on its `top` level, or of nodes inside a module. `active` are the
    documents that go through, innermost first, and the root. -/
inductive Filtered (docs : List (String × String)) (limit : Nat) :
    Bool → List String → List Node → List Node → List Report → Prop where
  | nil {top : Bool} {active : List String} : Filtered docs limit top active [] [] []
  /-- Atoms and comments inside a module stay. -/
  | leaf {active : List String} {n : Node} {ns ms : List Node} {rs : List Report}
      (hn : n.isGroup = false) (hrest : Filtered docs limit false active ns ms rs) :
      Filtered docs limit false active (n :: ns) (n :: ms) rs
  /-- So do groups that are no forms, with what is left of their contents. -/
  | group {active : List String} {d : Delim} {cs cs' ns ms : List Node} {l stop : Location}
      {rs qs : List Report}
      (hhead : ∀ word ∈ [includeWord, modulesWord, rootOnlyWord],
        (Node.group d cs l stop).headName? ≠ some word)
      (hcs : Filtered docs limit false active cs cs' rs)
      (hrest : Filtered docs limit false active ns ms qs) :
      Filtered docs limit false active (.group d cs l stop :: ns) (.group d cs' l stop :: ms)
        (rs ++ qs)
  /-- `no-include` forms inside a module are dropped, when their contents have been searched. -/
  | dropped {active : List String} {d : Delim} {cs cs' ns ms : List Node} {l stop : Location}
      {rs qs : List Report} (hhead : (Node.group d cs l stop).headName? = some rootOnlyWord)
      (hcs : Filtered docs limit false active cs cs' rs)
      (hrest : Filtered docs limit false active ns ms qs) :
      Filtered docs limit false active (.group d cs l stop :: ns) ms (rs ++ qs)
  /-- Modules on the top level stay, with what is left of their contents. -/
  | module {active : List String} {d : Delim} {cs cs' ns ms : List Node} {l stop : Location}
      {rs qs : List Report} (hhead : (Node.group d cs l stop).headName? = some moduleWord)
      (hcs : Filtered docs limit false active cs cs' rs)
      (hrest : Filtered docs limit true active ns ms qs) :
      Filtered docs limit true active (.group d cs l stop :: ns) (.group d cs' l stop :: ms)
        (rs ++ qs)
  /-- Any other node on the top level is left out, and what is inside it is not looked at. -/
  | other {active : List String} {n : Node} {ns ms : List Node} {rs : List Report}
      (hhead : ∀ word ∈ [moduleWord, includeWord, modulesWord], n.headName? ≠ some word)
      (hrest : Filtered docs limit true active ns ms rs) :
      Filtered docs limit true active (n :: ns) ms rs
  /-- A document that is active is not included again, which is not reported. -/
  | again {top : Bool} {active : List String} {form : Node} {e : String} {ns ms : List Node}
      {rs : List Report} (hhead : form.headName? ∈ [some includeWord, some modulesWord])
      (htarget : form.target? = some e) (hactive : e ∈ active)
      (hrest : Filtered docs limit top active ns ms rs) :
      Filtered docs limit top active (form :: ns) ms rs
  /-- A document that there is not is reported. -/
  | missing {top : Bool} {active : List String} {form : Node} {e : String} {ns ms : List Node}
      {rs : List Report} (hhead : form.headName? ∈ [some includeWord, some modulesWord])
      (htarget : form.target? = some e) (hnew : e ∉ active) (hmissing : docs.lookup e = none)
      (hrest : Filtered docs limit top active ns ms rs) :
      Filtered docs limit top active (form :: ns) ms
        (.atNode (.unresolvableInclude (IncludeFailure.notFound e).message) form :: rs)
  /-- In the place of any other form is what is left of its document. -/
  | included {top : Bool} {active : List String} {form : Node} {e text : String}
      {ks ns ms : List Node} {rs qs : List Report}
      (hhead : form.headName? ∈ [some includeWord, some modulesWord])
      (htarget : form.target? = some e) (hnew : e ∉ active) (htext : docs.lookup e = some text)
      (hdoc : Filtered docs limit true (e :: active) (parseFrom form limit e text).1 ks rs)
      (hrest : Filtered docs limit top active ns ms qs) :
      Filtered docs limit top active (form :: ns) (ks ++ ms)
        ((parseFrom form limit e text).2 ++ rs ++ qs)

namespace Filtered

variable {docs : List (String × String)} {limit : Nat} {active : List String} {ns ms : List Node}
  {rs : List Report}

/-- What is left of nodes after one that is no group. -/
theorem exists_leaf {n : Node} (h : Filtered docs limit false active (n :: ns) ms rs)
    (hn : n.isGroup = false) :
    ∃ ks, ms = n :: ks ∧ Filtered docs limit false active ns ks rs := by
  have hno : n.headName? ∉ [some includeWord, some modulesWord] := by
    intro hhead
    obtain ⟨word, -, hword⟩ := Includer.exists_word hhead
    obtain ⟨d, cs, l, stop, rfl⟩ := Node.exists_group_of_headName? hword
    cases hn
  cases h with
  | leaf _ hrest => exact ⟨_, rfl, hrest⟩
  | group => cases hn
  | dropped => cases hn
  | again hhead => exact absurd hhead hno
  | missing hhead => exact absurd hhead hno
  | included hhead => exact absurd hhead hno

/-- The head of a group that stays is what it was. -/
theorem headName?_group (h : Filtered docs limit false active ns ms rs) {d : Delim}
    {l stop : Location} {head : String} (hhead : (Node.group d ns l stop).headName? = some head) :
    (Node.group d ms l stop).headName? = some head := by
  induction ns generalizing ms with
  | nil => cases hhead
  | cons n ns ih =>
    -- the head is behind the comments, which stay
    cases n with
    | group =>
      rw [Node.headName?_cons rfl] at hhead
      cases hhead
    | atom a =>
      obtain ⟨ks, rfl, -⟩ := h.exists_leaf rfl
      rwa [Node.headName?_cons rfl] at hhead ⊢
    | comment c =>
      obtain ⟨ks, rfl, hks⟩ := h.exists_leaf rfl
      rw [Node.headName?_comment_cons] at hhead ⊢
      exact ih hks hhead

/-- **Nothing but modules** is left on the top level of a document. -/
theorem headName?_eq (h : Filtered docs limit true active ns ms rs) :
    ∀ m ∈ ms, m.headName? = some moduleWord := by
  generalize htop : true = top at h
  induction h with
  | nil => exact fun m hm => absurd hm List.not_mem_nil
  | leaf => cases htop
  | group => cases htop
  | dropped => cases htop
  | module hhead hcs _ _ ih =>
    exact List.forall_mem_cons.mpr ⟨hcs.headName?_group hhead, ih htop⟩
  | other _ _ ih => exact ih htop
  | again _ _ _ _ ih => exact ih htop
  | missing _ _ _ _ _ ih => exact ih htop
  | included _ _ _ _ _ _ ihdoc ih => exact List.forall_mem_append.mpr ⟨ihdoc rfl, ih htop⟩

/-- Choosing the nodes to be kept, and replacing the forms among and inside these, leaves what is
    left on the top level. -/
theorem of_kept (h : Filtered docs limit false active (ns.filter Includer.keptByModules) ms rs) :
    Filtered docs limit true active ns ms rs := by
  induction ns generalizing ms rs with
  | nil =>
    cases h
    exact .nil
  | cons n ns ih =>
    by_cases hkept : Includer.keptByModules n = true
    · rw [List.filter_cons_of_pos hkept] at h
      simp only [Includer.keptByModules, List.mem_cons, List.not_mem_nil, or_false,
        decide_eq_true_eq] at hkept
      cases h with
      | leaf hn =>
        obtain hhead | hhead | hhead := hkept <;>
          obtain ⟨d, cs, l, stop, rfl⟩ := Node.exists_group_of_headName? hhead <;> cases hn
      | group hhead hcs hrest =>
        -- no form, so it is kept for being a module
        obtain hmodule | hinclude | hmodules := hkept
        · exact .module hmodule hcs (ih hrest)
        · exact absurd hinclude (hhead _ (by simp))
        · exact absurd hmodules (hhead _ (by simp))
      | dropped hhead => simp [hhead, rootOnlyWord, moduleWord, includeWord, modulesWord] at hkept
      | again hhead htarget hactive hrest => exact .again hhead htarget hactive (ih hrest)
      | missing hhead htarget hnew hmissing hrest =>
        exact .missing hhead htarget hnew hmissing (ih hrest)
      | included hhead htarget hnew htext hdoc hrest =>
        exact .included hhead htarget hnew htext hdoc (ih hrest)
    · rw [List.filter_cons_of_neg hkept] at h
      refine .other ?_ (ih h)
      simpa [Includer.keptByModules] using hkept

end Filtered

/-! ### Targets -/

/-- Forms have a target wherever a text stands. -/
theorem Like.namesTargets {L : Likeness} {ns ms : List Node} (h : Like L ns ms)
    (hns : NamesTargets ns) : NamesTargets ms := by
  intro m hm hhead
  obtain ⟨word, -, hword⟩ := Includer.exists_word hhead
  obtain ⟨n, hn, htwin⟩ := h.exists_twin_of_head hm hword
  rw [htwin.target?]
  rw [htwin.headName?] at hhead
  exact hns n hn hhead

/-- So have the forms that a module include keeps. -/
theorem namesTargets_kept {limit : Nat} {id text : String}
    (h : NamesTargets (parse { origin := id, limit } text).1) (form : Node) :
    NamesTargets ((parseFrom form limit id text).1.filter Includer.keptByModules) := by
  obtain ⟨hnodes, -⟩ := like_parseFrom form limit id text
  intro g hg
  obtain ⟨n, hn, hgn⟩ := List.mem_flatMap.mp hg
  exact hnodes.namesTargets h g (List.mem_flatMap.mpr ⟨n, (List.mem_filter.mp hn).1, hgn⟩)

namespace Includer

variable {docs : List (String × String)} {limit : Nat} {s : Includer}

/-! ### Inside a document -/

/-- A module include goes on inside a document only. -/
theorem inRoot_of_filtering (h : s.filtering = true) : s.inRoot = false := by
  obtain ⟨d, hd, -⟩ := List.any_eq_true.mp h
  exact List.isEmpty_eq_false_iff_exists_mem.mpr ⟨d, hd⟩

section

variable {replay : List Node → Includer → Option (Includer × List Node)}

/-- What is shown of a replay in a document of which only the modules are kept: it ends, and leaves
    what is left inside a module. -/
def Filters (docs : List (String × String)) (limit room : Nat)
    (replay : List Node → Includer → Option (Includer × List Node)) : Prop :=
  ∀ ns s, NamesTargets ns → s.Sound docs → s.limit = limit → s.filtering = true →
    docs.length ≤ room + s.included.length →
      ∃ rs asked ms, replay ns s = some (s.adding rs asked, ms) ∧
        Filtered docs limit false s.going ns ms rs

/-- A document goes through with only its modules kept. -/
theorem replace_modules (hdocs : TargetsNamed docs limit) {room : Nat}
    (hreplay : ∀ room', room' + 1 = room → Filters docs limit room' replay) (hs : s.Sound docs)
    (hlimit : s.limit = limit) (hroom : docs.length ≤ room + s.included.length) {form : Node}
    {e text : String} (hhead : form.headName? ∈ [some includeWord, some modulesWord])
    (htarget : form.target? = some e) (hnew : e ∉ s.going) (htext : docs.lookup e = some text)
    (hmodules : (form.headName? = some modulesWord || s.filtering) = true) :
    ∃ rs asked ms, (cutter (.ofList docs)).replace replay form s
        = some (s.adding ((parseFrom form limit e text).2 ++ rs) asked, ms) ∧
      Filtered docs limit true (e :: s.going) (parseFrom form limit e text).1 ms rs := by
  have hspliced : s.spliced form e text true
      = ((parseFrom form limit e text).1.filter keptByModules,
          (parseFrom form limit e text).2) := by
    subst hlimit
    exact spliced_modules s form e text
  have hsound : (s.including form e text true).Sound docs := hs.going_including hnew htext form true
  -- the document is new, so one level is spent and one document less is left to read
  obtain ⟨room', hlevel, hroom'⟩ := hsound.exists_level hroom
  have htargets : NamesTargets ((parseFrom form limit e text).1.filter keptByModules) :=
    namesTargets_kept (hdocs (e, text) (mem_of_lookup htext)) form
  obtain ⟨rs, asked, ms, hms, hfiltered⟩ :=
    hreplay room' hlevel _ _ htargets hsound hlimit rfl hroom'
  refine ⟨rs, asked ++ [e], ms, ?_, hfiltered.of_kept⟩
  rw [replace_found hhead htarget hnew htext, hmodules, hspliced, hms]
  simp only [Option.map_some, cutter, including, adding, hspliced, List.tail_cons,
    List.append_assoc, List.singleton_append]

mutual

theorem rewriteNode_filters (hdocs : TargetsNamed docs limit) {room : Nat}
    (hreplay : ∀ room', room' + 1 = room → Filters docs limit room' replay) :
    ∀ (n : Node) (s : Includer), NamesTargets [n] → s.Sound docs → s.limit = limit →
      s.filtering = true → docs.length ≤ room + s.included.length →
        ∃ rs asked ms,
          (cutter (.ofList docs)).rewriteNode replay n s = some (s.adding rs asked, ms) ∧
            ∀ ns ks qs, Filtered docs limit false s.going ns ks qs →
              Filtered docs limit false s.going (n :: ns) (ms ++ ks) (rs ++ qs)
  | .atom a, s, _, _, _, _, _ =>
    ⟨[], [], [.atom a], by rw [adding_nil]; rfl, fun _ _ _ => .leaf rfl⟩
  | .comment c, s, _, _, _, _, _ =>
    ⟨[], [], [.comment c], by rw [adding_nil]; rfl, fun _ _ _ => .leaf rfl⟩
  | .group d cs l stop, s, hn, hs, hlimit, hfiltering, hroom => by
    rw [NamesTargets, List.flatMap_singleton, Node.preorder_group, List.forall_mem_cons] at hn
    obtain ⟨hself, hcs⟩ := hn
    by_cases hform : (Node.group d cs l stop).headName? ∈ [some includeWord, some modulesWord]
    · -- a form that includes: its document may be active, missing or there
      obtain ⟨e, htarget⟩ := Option.isSome_iff_exists.mp (hself hform)
      rw [rewriteNode_target _ _ hform htarget]
      by_cases hactive : e ∈ s.going
      · refine ⟨_, _, _, replace_active hform htarget hactive, ?_⟩
        rw [hfiltering]
        exact fun _ _ _ => .again hform htarget hactive
      · cases htext : docs.lookup e with
        | none =>
          exact ⟨_, _, _, replace_missing hform htarget hactive htext,
            fun _ _ _ => .missing hform htarget hactive htext⟩
        | some text =>
          obtain ⟨rs, asked, ms, hms, hdoc⟩ := replace_modules hdocs hreplay hs hlimit hroom hform
            htarget hactive htext (by rw [hfiltering, Bool.or_true])
          exact ⟨_, asked, ms, hms, fun _ _ _ => .included hform htarget hactive htext hdoc⟩
    · obtain ⟨rs, asked, ms, hms, hinside⟩ :=
        rewriteAll_filters hdocs hreplay cs s hcs hs hlimit hfiltering hroom
      by_cases hroot : (Node.group d cs l stop).headName? = some rootOnlyWord
      · -- a `no-include` form: what is left of its contents is dropped with it
        have hdropped := paste_dropped (.ofList docs) (s := s.adding rs asked)
          (inRoot_of_filtering hfiltering) (Cutter.headName?_rewriteAll hms hroot)
        refine ⟨rs, asked, [], ?_, fun _ _ _ => .dropped hroot hinside⟩
        rw [rewriteNode_of_rootOnly hroot, hms, Option.bind_some, Cutter.replace_of_none hdropped]
      · have hother : ∀ word ∈ [includeWord, modulesWord, rootOnlyWord],
            (Node.group d cs l stop).headName? ≠ some word := by
          simp only [List.mem_cons, List.not_mem_nil, or_false, not_or] at hform
          simp [hform, hroot]
        refine ⟨rs, asked, [.group d ms l stop], ?_, fun _ _ _ => .group hother hinside⟩
        rw [Cutter.rewriteNode, ask_other _ s hother, hms]
        rfl

/-- Inside a module everything ends, if it does in what is included there. -/
theorem rewriteAll_filters (hdocs : TargetsNamed docs limit) {room : Nat}
    (hreplay : ∀ room', room' + 1 = room → Filters docs limit room' replay) :
    Filters docs limit room ((cutter (.ofList docs)).rewriteAll replay)
  | [], s, _, _, _, _, _ => ⟨[], [], [], by rw [adding_nil]; rfl, .nil⟩
  | n :: ns, s, hns, hs, hlimit, hfiltering, hroom => by
    rw [NamesTargets, List.flatMap_cons, List.forall_mem_append] at hns
    have hfirst : NamesTargets [n] := by
      rw [NamesTargets, List.flatMap_singleton]
      exact hns.1
    obtain ⟨rs, asked, ms, hms, hn⟩ :=
      rewriteNode_filters hdocs hreplay n s hfirst hs hlimit hfiltering hroom
    obtain ⟨qs, asked', ks, hks, hrest⟩ := rewriteAll_filters hdocs hreplay ns
      (s.adding rs asked) hns.2 (hs.adding rs asked) hlimit hfiltering hroom
    refine ⟨rs ++ qs, asked' ++ asked, ms ++ ks, ?_, hn _ _ _ hrest⟩
    rw [Cutter.rewriteAll, hms, Option.bind_some, hks, Option.map_some, adding_adding]

end

end

/-- **Inside a document of which only the modules are kept** everything ends, within as many levels
    as there are further documents, and what is left is what is said to be left. -/
theorem rewrite_filters (hdocs : TargetsNamed docs limit) (levels : Nat) :
    Filters docs limit levels ((cutter (.ofList docs)).rewrite levels) := by
  induction levels with
  | zero => exact rewriteAll_filters hdocs fun _ h => absurd h (by simp)
  | succ levels ih =>
    refine rewriteAll_filters hdocs fun room' h => ?_
    obtain rfl := Nat.succ.inj h
    exact ih

end Includer

/-! ### In the root -/

/-- Whether a form of the root takes the modules of a document: it names the document, which is not
    the root itself, and which there is. -/
structure TakesModules (docs : List (String × String)) (root : String) (form : Node)
    (e text : String) : Prop where
  head : form.headName? = some modulesWord
  target : form.target? = some e
  acyclic : e ≠ root
  found : docs.lookup e = some text

/-- What is left of the nodes of a root document, and what is reported. Nothing is said of the forms
    that take no modules, and of what is inside them. -/
inductive ModulesReplaced (docs : List (String × String)) (root : String) (limit : Nat) :
    List Node → List Node → List Report → Prop where
  | nil : ModulesReplaced docs root limit [] [] []
  /-- Atoms and comments stay. -/
  | leaf {n : Node} {ns ms : List Node} {rs : List Report} (hn : n.isGroup = false)
      (hrest : ModulesReplaced docs root limit ns ms rs) :
      ModulesReplaced docs root limit (n :: ns) (n :: ms) rs
  /-- So do groups that are no forms, with what is left of their contents. -/
  | group {d : Delim} {cs cs' ns ms : List Node} {l stop : Location} {rs qs : List Report}
      (hhead : ∀ word ∈ [includeWord, modulesWord, rootOnlyWord],
        (Node.group d cs l stop).headName? ≠ some word)
      (hcs : ModulesReplaced docs root limit cs cs' rs)
      (hrest : ModulesReplaced docs root limit ns ms qs) :
      ModulesReplaced docs root limit (.group d cs l stop :: ns) (.group d cs' l stop :: ms)
        (rs ++ qs)
  /-- In the place of a form that takes the modules of a document are these. -/
  | modules {form : Node} {e text : String} {ks ns ms : List Node} {rs qs : List Report}
      (hform : TakesModules docs root form e text)
      (hdoc : Filtered docs limit true [e, root] (parseFrom form limit e text).1 ks rs)
      (hrest : ModulesReplaced docs root limit ns ms qs) :
      ModulesReplaced docs root limit (form :: ns) (ks ++ ms)
        ((parseFrom form limit e text).2 ++ rs ++ qs)
  /-- Any other form. -/
  | form {form : Node} {ks ns ms : List Node} {rs qs : List Report}
      (hhead : ∃ word ∈ [includeWord, modulesWord, rootOnlyWord], form.headName? = some word)
      (hno : ∀ e text, ¬TakesModules docs root form e text)
      (hrest : ModulesReplaced docs root limit ns ms qs) :
      ModulesReplaced docs root limit (form :: ns) (ks ++ ms) (rs ++ qs)

namespace Includer

variable {docs : List (String × String)} {root : String} {limit : Nat} {s : Includer}

/-- Whether nothing goes through but the root document. -/
structure AtRoot (root : String) (limit : Nat) (s : Includer) : Prop where
  root : s.root = some root
  limit : s.limit = limit
  stack : s.stack = []

theorem AtRoot.adding (h : AtRoot root limit s) (rs : List Report) (asked : List String) :
    AtRoot root limit (s.adding rs asked) :=
  ⟨h.root, h.limit, h.stack⟩

theorem AtRoot.going (h : AtRoot root limit s) : s.going = [root] := by
  simp [Includer.going, included, h.root, h.stack]

section

variable {replay : List Node → Includer → Option (Includer × List Node)}

/-- A form that takes the modules of a document is replaced by these. -/
theorem rewriteNode_takes (hdocs : TargetsNamed docs limit) {room : Nat}
    (hreplay : ∀ room', room' + 1 = room → Filters docs limit room' replay)
    (hs : AtRoot root limit s) (hroom : docs.length ≤ room) {form : Node} {e text : String}
    (hform : TakesModules docs root form e text) :
    ∃ rs asked ms, (cutter (.ofList docs)).rewriteNode replay form s
        = some (s.adding ((parseFrom form limit e text).2 ++ rs) asked, ms) ∧
      Filtered docs limit true [e, root] (parseFrom form limit e text).1 ms rs := by
  have hhead : form.headName? ∈ [some includeWord, some modulesWord] := by simp [hform.head]
  have hnew : e ∉ s.going := by
    rw [hs.going, List.mem_singleton]
    exact hform.acyclic
  rw [rewriteNode_target _ _ hhead hform.target, ← hs.going]
  exact replace_modules hdocs hreplay (sound_of_empty hs.stack) hs.limit
    (Nat.le_trans hroom (Nat.le_add_right _ _)) hhead hform.target hnew hform.found
    (by simp [hform.head])

mutual

theorem rewriteNode_modules (hdocs : TargetsNamed docs limit) {room : Nat}
    (hreplay : ∀ room', room' + 1 = room → Filters docs limit room' replay)
    (hlater : Cutter.SettlesOn Later replay) (hroom : docs.length ≤ room) :
    ∀ (n : Node) (s : Includer) (r : Includer × List Node), AtRoot root limit s →
      (cutter (.ofList docs)).rewriteNode replay n s = some r →
        ∃ rs asked, r.1 = s.adding rs asked ∧
          ∀ ns ms qs, ModulesReplaced docs root limit ns ms qs →
            ModulesReplaced docs root limit (n :: ns) (r.2 ++ ms) (rs ++ qs)
  | .atom a, s, r, _, hr => by
    cases hr
    exact ⟨[], [], (adding_nil s).symm, fun _ _ _ => .leaf rfl⟩
  | .comment c, s, r, _, hr => by
    cases hr
    exact ⟨[], [], (adding_nil s).symm, fun _ _ _ => .leaf rfl⟩
  | .group d cs l stop, s, r, hs, hr => by
    by_cases htakes : ∃ e text, TakesModules docs root (.group d cs l stop) e text
    · obtain ⟨e, text, hform⟩ := htakes
      obtain ⟨rs, asked, ms, hms, hdoc⟩ := rewriteNode_takes hdocs hreplay hs hroom hform
      rw [hms] at hr
      cases hr
      exact ⟨_, asked, rfl, fun _ _ _ => .modules hform hdoc⟩
    · simp only [not_exists] at htakes
      by_cases hword : ∃ word ∈ [includeWord, modulesWord, rootOnlyWord],
          (Node.group d cs l stop).headName? = some word
      · -- whatever the form comes to, all that is left of it is nodes and reports
        obtain ⟨rs, asked, heq⟩ :=
          ((settles_later (.ofList docs)).rewriteNode hlater _ s r hr).exists_adding
        exact ⟨rs, asked, heq, fun _ _ _ => .form hword htakes⟩
      · have hother : ∀ word ∈ [includeWord, modulesWord, rootOnlyWord],
            (Node.group d cs l stop).headName? ≠ some word :=
          fun word hmem heq => hword ⟨word, hmem, heq⟩
        rw [Cutter.rewriteNode, ask_other _ s hother] at hr
        obtain ⟨q, hq, hr⟩ := Option.bind_eq_some_iff.mp hr
        cases hr
        obtain ⟨rs, asked, heq, hinside⟩ :=
          rewriteAll_modules hdocs hreplay hlater hroom cs s q hs hq
        exact ⟨rs, asked, heq, fun _ _ _ => .group hother hinside⟩

/-- In the root the modules of documents take the places of forms. -/
theorem rewriteAll_modules (hdocs : TargetsNamed docs limit) {room : Nat}
    (hreplay : ∀ room', room' + 1 = room → Filters docs limit room' replay)
    (hlater : Cutter.SettlesOn Later replay) (hroom : docs.length ≤ room) :
    ∀ (ns : List Node) (s : Includer) (r : Includer × List Node), AtRoot root limit s →
      (cutter (.ofList docs)).rewriteAll replay ns s = some r →
        ∃ rs asked, r.1 = s.adding rs asked ∧ ModulesReplaced docs root limit ns r.2 rs
  | [], s, r, _, hr => by
    cases hr
    exact ⟨[], [], (adding_nil s).symm, .nil⟩
  | n :: ns, s, r, hs, hr => by
    obtain ⟨q, hq, hr⟩ := Option.bind_eq_some_iff.mp hr
    obtain ⟨p, hp, rfl⟩ := Option.map_eq_some_iff.mp hr
    obtain ⟨rs, asked, heq, hn⟩ := rewriteNode_modules hdocs hreplay hlater hroom n s q hs hq
    rw [heq] at hp
    obtain ⟨qs, asked', heq', hrest⟩ := rewriteAll_modules hdocs hreplay hlater hroom ns _ p
      (hs.adding rs asked) hp
    refine ⟨rs ++ qs, asked' ++ asked, ?_, hn _ _ _ hrest⟩
    rw [heq', adding_adding]

end

end

/-- What goes through in the place of a form, if a number of levels is given to the form. -/
theorem exists_replay (hdocs : TargetsNamed docs limit) (levels : Nat) :
    ∃ replay,
      (cutter (.ofList docs)).rewrite levels = (cutter (.ofList docs)).rewriteAll replay ∧
      (∀ room, room + 1 = levels → Filters docs limit room replay) ∧
      Cutter.SettlesOn Later replay := by
  cases levels with
  | zero => exact ⟨_, rfl, fun _ h => absurd h (by simp), fun _ _ _ h => nomatch h⟩
  | succ levels =>
    refine ⟨_, rfl, fun room h => ?_, (settles_later _).rewrite levels⟩
    obtain rfl := Nat.succ.inj h
    exact rewrite_filters hdocs room

/-- What a rewrite leaves of a root document, if there are levels for all documents. -/
theorem rewrite_modules (hdocs : TargetsNamed docs limit) {levels : Nat}
    (hlevels : docs.length ≤ levels) {ns : List Node} (hs : AtRoot root limit s)
    {r : Includer × List Node} (hr : (cutter (.ofList docs)).rewrite levels ns s = some r) :
    ∃ rs asked, r.1 = s.adding rs asked ∧ ModulesReplaced docs root limit ns r.2 rs := by
  obtain ⟨replay, hrewrite, hreplay, hlater⟩ := exists_replay hdocs levels
  rw [hrewrite] at hr
  exact rewriteAll_modules hdocs hreplay hlater hlevels ns s r hs hr

/-- On its own, a form that takes the modules of a document comes to these, within as many levels as
    there are documents. -/
theorem exists_process_takes (hdocs : TargetsNamed docs limit)
    (hs : AtRoot root limit s) {form : Node} (hplain : form.plain = form) {e text : String}
    (hform : TakesModules docs root form e text) :
    ∃ rs asked ms,
      Filtered docs limit true [e, root] (parseFrom form limit e text).1 ms rs ∧
      ∀ levels, docs.length ≤ levels →
        process (.ofList docs) levels s [form]
          = some (s.adding ((parseFrom form limit e text).2 ++ rs) asked, Node.eventsAll ms) := by
  obtain ⟨replay, hrewrite, hreplay, -⟩ := exists_replay hdocs docs.length
  obtain ⟨rs, asked, ms, hms, hdoc⟩ := rewriteNode_takes hdocs hreplay hs (Nat.le_refl _) hform
  rw [← Cutter.rewriteAll_singleton, ← hrewrite] at hms
  refine ⟨rs, asked, ms, hdoc, fun levels hlevels => ?_⟩
  rw [process, Cutter.run_eventsAll (cutter_onNodes _), Node.plainAll, hplain, Node.plainAll,
    Cutter.rewrite_mono hlevels _ _ _ hms]
  rfl

end Includer

/-! ### Whole documents -/

/-- **Module includes keep just the modules.** Where the forms that include documents, in all
    documents, consist of their head and one atom that is no keyword: whatever is loaded is the root
    document with each form that takes the modules of a document replaced by what is left of that
    document. Such a form always comes to an end, wherever it stands in the root document, and what
    takes its place is modules only. -/
theorem includeSource_modules {docs : List (String × String)} {limit : Nat}
    (hdocs : TargetsNamed docs limit) (id text : String) :
    let root := parse { origin := id, limit } text
    (∀ levels loaded, includeSource (.ofList docs) levels id text limit = some loaded →
      ∃ rs, loaded.reports = root.2 ++ rs ∧
        ModulesReplaced docs id limit root.1 loaded.nodes rs) ∧
    (∀ form ∈ root.1.flatMap Node.preorder, ∀ e doc, TakesModules docs id form e doc →
      ∀ s, Includer.AtRoot id limit s → ∃ rs asked ms,
        Filtered docs limit true [e, id] (parseFrom form limit e doc).1 ms rs ∧
        ∀ levels, docs.length ≤ levels →
          Includer.process (.ofList docs) levels s [form]
            = some (s.adding ((parseFrom form limit e doc).2 ++ rs) asked, Node.eventsAll ms)) ∧
    ∀ active ns ms rs, Filtered docs limit true active ns ms rs →
      ∀ m ∈ ms, m.headName? = some moduleWord := by
  intro root
  have hplain : Node.plainAll root.1 = root.1 := Builder.plainAll_build _
  refine ⟨?_, ?_, fun _ _ _ _ h => h.headName?_eq⟩
  · intro levels loaded hloaded
    rw [includeSource_eq_rewrite] at hloaded
    obtain ⟨r, hr, rfl⟩ := Option.map_eq_some_iff.mp hloaded
    -- more levels make no difference, so there may be enough of them for all documents
    have hmore := Cutter.rewrite_mono (Nat.le_max_left levels docs.length) _ _ _ hr
    rw [show Node.plainAll (parse { origin := id, limit } text).1 = root.1 from hplain] at hmore
    obtain ⟨rs, asked, heq, hleft⟩ := Includer.rewrite_modules hdocs
      (Nat.le_max_right levels docs.length) ⟨rfl, rfl, rfl⟩ hmore
    exact ⟨rs, by rw [heq]; rfl, hleft⟩
  · intro form hform e doc htakes s hs
    exact Includer.exists_process_takes hdocs hs (Node.plain_of_mem_preorder hplain form hform)
      htakes

/-- A document that is included for its modules, one of which includes a second document and drops a
    form, and a third that leads back. Nodes of other kinds are left out with what they include. -/
theorem includeSource_modules_nested :
    let docs := [
      ("lib",
        "(~module a (include more) (no-include x)) (stray (include gone)) (include-modules more)"),
      ("more", "; note\n(~module b) junk (include other)"),
      ("other", "(~module c y) (include lib) (noise)")]
    let text := "(before) [(include-modules lib)]"
    TargetsNamed docs 1024 ∧
      ∃ loaded, includeSource (.ofList docs) 3 "main" text 1024 = some loaded ∧
        Node.textAll loaded.nodes
          = "(before) [(~module a (~module b) (~module c y)) (~module b) (~module c y)]" ∧
        ModulesReplaced docs "main" 1024 (parse { origin := "main", limit := 1024 } text).1
          loaded.nodes [] := by
  intro docs text
  have hdocs : TargetsNamed docs 1024 := by decide +kernel
  -- the run makes no report, so what replaces the forms has none either
  have hevaluated : (includeSource (.ofList docs) 3 "main" text 1024).map
      (fun l => (Node.textAll l.nodes, l.reports.length))
        = some
            ("(before) [(~module a (~module b) (~module c y)) (~module b) (~module c y)]", 0) := by
    decide +kernel
  obtain ⟨loaded, hloaded, heq⟩ := Option.map_eq_some_iff.mp hevaluated
  obtain ⟨htext, hreports⟩ := Prod.mk.inj heq
  obtain ⟨rs, hrs, hleft⟩ := (includeSource_modules hdocs "main" text).1 3 loaded hloaded
  rw [List.length_eq_zero_iff] at hreports
  obtain rfl : rs = [] := (List.append_eq_nil_iff.mp (hrs.symm.trans hreports)).2
  exact ⟨hdocs, loaded, hloaded, htext, hleft⟩

end Formwork
