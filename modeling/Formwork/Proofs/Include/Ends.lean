import Formwork.Proofs.Include.InPlace
import Formwork.Proofs.Scan.RoundTrip

namespace Formwork

/-!
# When including ends

A document that is going through is not included again, so includes alone cannot go on forever. The
contents of a `no-include` form can: they are searched once more when the form has been rebuilt, and
by then a document may have put a new `no-include` form among them.

* `includeSource_ends_iff` — including ends exactly when the contents of `no-include` forms do not
  pile up, and it does so when the documents keep `no-include` in place.
* `includeSource_endless` — a document with which it never ends.
-/

/-- **When including ends.** Including has a result exactly when its run comes to a last moment, and
    exactly when there is a number of `no-include` forms that is never exceeded by those whose
    contents go through at once. It always ends when each atom `no-include` of the documents is the
    head of its group. -/
theorem includeSource_ends_iff (docs : List (String × String)) (id text : String) (limit : Nat) :
    ((∃ levels, (includeSource (.ofList docs) levels id text limit).isSome) ↔
      ∃ last : Moment Includer Builder,
        Moment.Leads (Includer.cutter (.ofList docs))
          (.start { root := some id, limit, reports := (parse { origin := id, limit } text).2 }
            (Node.eventsAll (parse { origin := id, limit } text).1)) last ∧
        last.tasks = []) ∧
    ((∃ levels, (includeSource (.ofList docs) levels id text limit).isSome) ↔
      ∃ bound, ∀ m : Moment Includer Builder,
        Moment.Leads (Includer.cutter (.ofList docs))
          (.start { root := some id, limit, reports := (parse { origin := id, limit } text).2 }
            (Node.eventsAll (parse { origin := id, limit } text).1)) m →
        m.cutout.state.stack.count none ≤ bound) ∧
    (Includer.Tidy docs limit →
      ∃ levels, (includeSource (.ofList docs) levels id text limit).isSome) := by
  have hrun : ∀ levels, (includeSource (.ofList docs) levels id text limit).isSome
      = (Includer.process (.ofList docs) levels
          { root := some id, limit, reports := (parse { origin := id, limit } text).2 }
          (parse { origin := id, limit } text).1).isSome := by
    intro levels
    rw [includeSource, Option.isSome_map]
  simp only [hrun]
  refine ⟨?_, ?_, ?_⟩
  · exact (Includer.tracks_stack _).exists_run_iff _ _
  · exact Includer.exists_run_iff_bounded (Includer.sound_of_empty rfl) _
  · exact fun hdocs => Includer.exists_process hdocs rfl rfl _

/-! ### A document without end -/

namespace Node

/-- What is the same as an atom. -/
theorem same_atom {n : Node} {a : Atom} (h : same n (.atom a) = true) :
    ∃ a', n = .atom a' ∧ a'.value = a.value := by
  cases n with
  | atom a' => exact ⟨a', rfl, by simpa [same] using h⟩
  | comment c => exact absurd h (by simp [same])
  | group d cs l s => exact absurd h (by simp [same])

/-- What is the same as a group. -/
theorem same_group {n : Node} {d : Delim} {cs : List Node} {l s : Location}
    (h : same n (.group d cs l s) = true) :
    ∃ cs' l' s', n = .group d cs' l' s' ∧ sameAll cs' cs = true := by
  cases n with
  | atom a => exact absurd h (by simp [same])
  | comment c => exact absurd h (by simp [same])
  | group d' cs' l' s' =>
    simp only [same, Bool.and_eq_true, decide_eq_true_eq] at h
    obtain ⟨rfl, hcs⟩ := h
    exact ⟨cs', l', s', rfl, hcs⟩

/-- What is the same as no nodes. -/
theorem sameAll_nil {ns : List Node} (h : sameAll ns [] = true) : ns = [] := by
  cases ns with
  | nil => rfl
  | cons n ns => exact absurd h (by simp [sameAll])

/-- What is the same as nodes. -/
theorem sameAll_cons {ns : List Node} {m : Node} {ms : List Node}
    (h : sameAll ns (m :: ms) = true) :
    ∃ n ns', ns = n :: ns' ∧ same n m = true ∧ sameAll ns' ms = true := by
  cases ns with
  | nil => exact absurd h (by simp [sameAll])
  | cons n ns =>
    rw [sameAll, Bool.and_eq_true] at h
    exact ⟨n, ns, rfl, h⟩

@[simp] theorem headName?_atom_cons (d : Delim) (a : Atom) (cs : List Node) (l s : Location) :
    (group d (atom a :: cs) l s).headName? = some a.value := rfl

/-- A group that starts with a group has no head. -/
theorem headName?_group_cons {n : Node} {d : Delim} {cs : List Node} {l s : Location}
    (h : same n (.group d cs l s) = true) (d' : Delim) (ns : List Node) (l' s' : Location) :
    (group d' (n :: ns) l' s').headName? = none := by
  obtain ⟨cs', l', s', rfl, -⟩ := same_group h
  rfl

end Node

namespace Includer

/-- Nodes in round brackets. -/
def round (ns : List Node) : Node := .group .paren ns .nowhere .nowhere

/-- An atom with a value. -/
def word (value : String) : Node := .atom (Atom.plain value .nowhere)

/-- The node of the root: a form that is cut out with what it includes in it. -/
private def rootShape : Node :=
  round [word "no-include", round [word "include", word "d"]]

/-- The node of the document. Where it is included, both `(no-include)` are dropped; what is left is
    the node of the root. -/
private def documentShape : Node :=
  round [round [word "no-include"], word "no-include",
    round [round [word "no-include"], word "include", word "d"]]

private def documentText : String := "((no-include) no-include ((no-include) include d))"

private theorem parse_document (src : Source) (hlimit : src.limit = 1024) :
    Node.sameAll (parse src documentText).1 [documentShape] = true := by
  have hprintable : Node.PrintableAll src.limit [documentShape] := by
    rw [hlimit]
    simp [documentShape, round, word, Node.PrintableAll, Node.Printable, Atom.plain]
  have htext : Node.textAll [documentShape] = documentText := by decide +kernel
  have hscan := (scan_textAll hprintable).2
  rw [htext] at hscan
  rwa [parse]

private theorem parse_root (src : Source) (hlimit : src.limit = 1024) :
    Node.sameAll (parse src "(no-include (include d))").1 [rootShape] = true := by
  have hprintable : Node.PrintableAll src.limit [rootShape] := by
    rw [hlimit]
    simp [rootShape, round, word, Node.PrintableAll, Node.Printable, Atom.plain]
  have htext : Node.textAll [rootShape] = "(no-include (include d))" := by decide +kernel
  have hscan := (scan_textAll hprintable).2
  rw [htext] at hscan
  rwa [parse]

section

variable {replay : List Node → Includer → Option (Includer × List Node)} {s : Includer}

/-- A form is rewritten by rewriting what it holds, and replacing it. -/
private theorem rewriteNode_form (docs : Documents) {d : Delim} {a : Atom} {cs : List Node}
    {l stop : Location} (ha : a.value ∈ [includeWord, modulesWord, rootOnlyWord]) :
    (cutter docs).rewriteNode replay (.group d (.atom a :: cs) l stop) s
      = ((cutter docs).rewriteAll replay cs s).bind fun r =>
          (cutter docs).replace replay (.group d (.atom a :: r.2) l stop) r.1 := by
  have hask : (cutter docs).ask s (some a.value) = (s, true) := by
    simp only [Cutter.ask, cutter, if_pos ha, Option.isSome_some]
  rw [Cutter.rewriteNode, Node.headName?_atom_cons]
  simp only [hask, Cutter.rewriteAll, Cutter.rewriteNode, Option.bind_some, if_true]
  cases (cutter docs).rewriteAll replay cs s <;> rfl

/-- A group without a head is rewritten by rewriting what it holds. -/
private theorem rewriteNode_headless (docs : Documents) {d : Delim} {cs : List Node}
    {l stop : Location} (h : (Node.group d cs l stop).headName? = none) :
    (cutter docs).rewriteNode replay (.group d cs l stop) s
      = ((cutter docs).rewriteAll replay cs s).map fun r => (r.1, [.group d r.2 l stop]) := by
  rw [Cutter.rewriteNode, h]
  simp only [Cutter.ask, Bool.false_eq_true, if_false]
  cases (cutter docs).rewriteAll replay cs s <;> rfl

/-- Inside an included document, `(no-include)` is dropped. -/
private theorem rewriteNode_rootOnly (docs : Documents) (hin : s.inRoot = false) {n : Node}
    (hn : Node.same n (round [word "no-include"]) = true) :
    (cutter docs).rewriteNode replay n s = some (s, []) := by
  obtain ⟨cs, l, stop, rfl, hcs⟩ := Node.same_group hn
  obtain ⟨n, ns, rfl, hn, hns⟩ := Node.sameAll_cons hcs
  obtain ⟨a, rfl, ha⟩ := Node.same_atom hn
  obtain rfl := Node.sameAll_nil hns
  have hvalue : a.value = rootOnlyWord := ha
  have hp : (cutter docs).paste s (Builder.holding (.group .paren [.atom a] l stop))
      = (s, none) := by
    simp only [cutter, Builder.node?_holding, Includer.replace, Node.headName?_atom_cons, hvalue,
      hin, if_true, Bool.false_eq_true, if_false]
  rw [rewriteNode_form docs (by simp [hvalue]), Cutter.rewriteAll, Option.bind_some]
  exact Cutter.replace_of_none hp

/-- Inside an included document, the node of the document becomes the node of the root. -/
private theorem rewriteNode_document (docs : Documents) (hin : s.inRoot = false) {n : Node}
    (hn : Node.same n documentShape = true) :
    ∃ n', (cutter docs).rewriteNode replay n s = some (s, [n']) ∧
      Node.same n' rootShape = true := by
  obtain ⟨cs, l, stop, rfl, hcs⟩ := Node.same_group hn
  obtain ⟨first, cs, rfl, hfirst, hcs⟩ := Node.sameAll_cons hcs
  obtain ⟨second, cs, rfl, hsecond, hcs⟩ := Node.sameAll_cons hcs
  obtain ⟨third, cs, rfl, hthird, hcs⟩ := Node.sameAll_cons hcs
  obtain rfl := Node.sameAll_nil hcs
  obtain ⟨a, rfl, ha⟩ := Node.same_atom hsecond
  obtain ⟨ks, l', stop', rfl, hks⟩ := Node.same_group hthird
  obtain ⟨first', ks, rfl, hfirst', hks⟩ := Node.sameAll_cons hks
  obtain ⟨head, ks, rfl, hhead, hks⟩ := Node.sameAll_cons hks
  obtain ⟨target, ks, rfl, htarget, hks⟩ := Node.sameAll_cons hks
  obtain rfl := Node.sameAll_nil hks
  obtain ⟨b, rfl, hb⟩ := Node.same_atom hhead
  obtain ⟨c, rfl, hc⟩ := Node.same_atom htarget
  -- the inner group becomes `(include d)`, the outer one `(no-include (include d))`
  have hinner : (cutter docs).rewriteNode replay
      (.group .paren [first', .atom b, .atom c] l' stop') s
        = some (s, [.group .paren [.atom b, .atom c] l' stop']) := by
    rw [rewriteNode_headless docs (Node.headName?_group_cons hfirst' ..)]
    simp [Cutter.rewriteAll, rewriteNode_rootOnly docs hin hfirst']
  refine ⟨.group .paren [.atom a, .group .paren [.atom b, .atom c] l' stop'] l stop, ?_, ?_⟩
  · rw [rewriteNode_headless docs (Node.headName?_group_cons hfirst ..)]
    simp [Cutter.rewriteAll, rewriteNode_rootOnly docs hin hfirst, hinner]
  · simp [rootShape, round, word, Node.same, Node.sameAll, ha, hb, hc]

/-- The documents that there are: one, which brings the root back. -/
private def endless : Documents := .ofList [("d", documentText)]

/-- The document is included. -/
private theorem paste_include (hin : s.inRoot = true) (hroot : s.root ≠ some "d") {b c : Atom}
    (hb : b.value = includeWord) (hc : c.value = "d") (l stop : Location) :
    (cutter endless).paste s (Builder.holding (.group .paren [.atom b, .atom c] l stop))
      = (s.including (.group .paren [.atom b, .atom c] l stop) "d" documentText false,
          some (Node.eventsAll
            (s.spliced (.group .paren [.atom b, .atom c] l stop) "d" documentText false).1)) := by
  have hincluded : s.included = [] := List.isEmpty_iff.mp hin
  have hactive : s.isActive "d" = false := by simp [isActive, hroot, hincluded]
  have hfiltering : s.filtering = false := by simp [filtering, hincluded]
  have hkeyword : c.keyword? = none := by
    rw [Atom.keyword?, hc]
    split <;> rfl
  have hid : endless.identify (.group .paren [.atom b, .atom c] l stop) = .ok "d" := by
    simp [endless, Documents.ofList, includeTarget, Node.tail, Node.exprs, Node.children,
      Node.isComment, firstAtomArgument, Node.atom?, hkeyword, hc]
  have hfetch : endless.fetch "d" = .ok documentText := rfl
  have hother : includeWord ≠ rootOnlyWord ∧ includeWord ≠ modulesWord := by decide
  simp only [cutter, Builder.node?_holding, Includer.replace, Node.headName?_atom_cons, hb,
    if_neg hother.1, decide_eq_false hother.2, Bool.false_or, hfiltering, includeDocument, hid,
    hactive, Bool.false_eq_true, if_false, hfetch]
  rfl

/-- The contents of the root are searched. -/
private theorem paste_rootOnly (docs : Documents) (hin : s.inRoot = true) {a : Atom}
    (ha : a.value = rootOnlyWord) {n : Node} (hn : Node.same n rootShape = true)
    (l stop : Location) :
    (cutter docs).paste s (Builder.holding (.group .paren [.atom a, n] l stop))
      = ({ s with stack := none :: s.stack }, some (Node.eventsAll [n])) := by
  obtain ⟨cs, l', stop', rfl, -⟩ := Node.same_group hn
  have htail : (Node.group .paren [.atom a, .group .paren cs l' stop'] l stop).tail
      = [.group .paren cs l' stop'] := rfl
  simp only [cutter, Builder.node?_holding, Includer.replace, Node.headName?_atom_cons, ha, hin,
    if_true, htail]

/-- If the replay of the root has no result, nothing takes the place of the root. -/
private theorem replace_rootShape
    (hreplay : ∀ n s, s.inRoot = true → s.root ≠ some "d" → s.limit = 1024 →
      Node.same n rootShape = true → replay [n] s = none)
    (hin : s.inRoot = true) (hroot : s.root ≠ some "d") (hlimit : s.limit = 1024) {a : Atom}
    (ha : a.value = rootOnlyWord) {n : Node} (hn : Node.same n rootShape = true)
    {l stop : Location} :
    (cutter endless).replace replay (.group .paren [.atom a, n] l stop) s = none := by
  have hagain : replay [n.plain] { s with stack := none :: s.stack } = none :=
    hreplay _ _ hin hroot hlimit ((Node.same_plain n rootShape).trans hn)
  rw [Cutter.replace_of_some (paste_rootOnly _ hin ha hn l stop), Builder.build_eventsAll]
  exact congrArg (Option.map _) hagain

/-- If the replay of the root has no result, neither has the root. -/
private theorem rewriteNode_rootShape (hdocument : ∀ ns s, s.inRoot = false →
      Node.sameAll ns [documentShape] = true →
        replay ns s = none ∨ ∃ n, replay ns s = some (s, [n]) ∧ Node.same n rootShape = true)
    (hreplay : ∀ n s, s.inRoot = true → s.root ≠ some "d" → s.limit = 1024 →
      Node.same n rootShape = true → replay [n] s = none)
    (hin : s.inRoot = true) (hroot : s.root ≠ some "d") (hlimit : s.limit = 1024) {n : Node}
    (hn : Node.same n rootShape = true) :
    (cutter endless).rewriteNode replay n s = none := by
  -- the root has one form only, so the nodes are taken apart down to the two atoms of it
  obtain ⟨cs, l, stop, rfl, hcs⟩ := Node.same_group hn
  obtain ⟨first, cs, rfl, hfirst, hcs⟩ := Node.sameAll_cons hcs
  obtain ⟨form, cs, rfl, hform, hcs⟩ := Node.sameAll_cons hcs
  obtain rfl := Node.sameAll_nil hcs
  obtain ⟨a, rfl, ha⟩ := Node.same_atom hfirst
  obtain ⟨ks, l', stop', rfl, hks⟩ := Node.same_group hform
  obtain ⟨head, ks, rfl, hhead, hks⟩ := Node.sameAll_cons hks
  obtain ⟨target, ks, rfl, htarget, hks⟩ := Node.sameAll_cons hks
  obtain rfl := Node.sameAll_nil hks
  obtain ⟨b, rfl, hb⟩ := Node.same_atom hhead
  obtain ⟨c, rfl, hc⟩ := Node.same_atom htarget
  have hvalue : a.value = rootOnlyWord := ha
  have hvalue' : b.value = includeWord := hb
  have hnodes : Node.sameAll (Node.plainAll
      (s.spliced (.group .paren [.atom b, .atom c] l' stop') "d" documentText false).1)
      [documentShape] = true := by
    rw [Node.sameAll_plainAll]
    exact parse_document { origin := "d", base := some l', limit := s.limit } hlimit
  rw [rewriteNode_form _ (by simp [hvalue]), Cutter.rewriteAll_singleton,
    rewriteNode_form _ (by simp [hvalue']), Cutter.rewriteAll_singleton, Cutter.rewriteNode_atom,
    Option.bind_some, Cutter.replace_of_some (paste_include hin hroot hvalue' hc l' stop'),
    Builder.build_eventsAll]
  -- the replay of the document comes to no end, or it comes back with the root again
  obtain hnone | ⟨n', hsome, hn'⟩ := hdocument _
    (s.including (.group .paren [.atom b, .atom c] l' stop') "d" documentText false) rfl hnodes
  · rw [hnone]
    rfl
  · rw [hsome, Option.map_some, Option.bind_some]
    exact replace_rootShape hreplay (s := (cutter endless).pasted (s.including
      (.group .paren [.atom b, .atom c] l' stop') "d" documentText false))
      hin hroot hlimit hvalue hn'

/-- The node of the root comes up again in the place of its own contents, so no number of levels is
    enough. -/
private theorem rewrite_root_eq_none (levels : Nat) {n : Node} (hn : Node.same n rootShape = true)
    (hin : s.inRoot = true) (hroot : s.root ≠ some "d") (hlimit : s.limit = 1024) :
    (cutter endless).rewrite levels [n] s = none := by
  induction levels generalizing n s with
  | zero =>
    rw [Cutter.rewrite, Cutter.rewriteAll_singleton]
    -- the first answer would need a level
    exact rewriteNode_rootShape (fun _ _ _ _ => .inl rfl) (fun _ _ _ _ _ _ => rfl) hin hroot
      hlimit hn
  | succ levels ih =>
    rw [Cutter.rewrite, Cutter.rewriteAll_singleton]
    -- the document brings the root back, and the root has no result at the level below
    refine rewriteNode_rootShape (fun ns s hin hns => .inr ?_)
      (fun n s hin hroot hlimit hn => ih hn hin hroot hlimit) hin hroot hlimit hn
    obtain ⟨m, ms, rfl, hm, hms⟩ := Node.sameAll_cons hns
    obtain rfl := Node.sameAll_nil hms
    cases levels with
    | zero =>
      rw [Cutter.rewrite, Cutter.rewriteAll_singleton]
      exact rewriteNode_document _ hin hm
    | succ levels =>
      rw [Cutter.rewrite, Cutter.rewriteAll_singleton]
      exact rewriteNode_document _ hin hm

end

end Includer

/-- **Including need not end.** A document brings back the `no-include` form that it stands in, each
    time its contents are searched: no number of levels is enough. -/
theorem includeSource_endless :
    ¬ ∃ levels, (includeSource
      (.ofList [("d", "((no-include) no-include ((no-include) include d))")]) levels
      "main" "(no-include (include d))" 1024).isSome := by
  rintro ⟨levels, hlevels⟩
  obtain ⟨n, ns, hns, hn, hnil⟩ := Node.sameAll_cons
    (Includer.parse_root { origin := "main", limit := 1024 } rfl)
  obtain rfl := Node.sameAll_nil hnil
  have hplain : Node.same n.plain Includer.rootShape = true := by rwa [Node.same_plain]
  have hnone : ∀ reports, (Includer.cutter Includer.endless).rewrite levels [n.plain]
      { root := some "main", limit := 1024, reports } = none :=
    fun _ => Includer.rewrite_root_eq_none levels hplain rfl (by simp) rfl
  rw [includeSource, Option.isSome_map, hns, Includer.process, ← Node.eventsAll_plainAll,
    Cutter.run_of_replays (Includer.cutter_onNodes _) _ _ (Node.plainAll_plainAll _)
      (Event.replays_eventsAll _), Option.isSome_map] at hlevels
  exact absurd (hlevels.symm.trans (congrArg Option.isSome (hnone _))) (by simp)

end Formwork
