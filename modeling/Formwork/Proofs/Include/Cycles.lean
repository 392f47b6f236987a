import Mathlib.Logic.Relation
import Formwork.Proofs.Include.Forms

namespace Formwork

/-!
# Cycles of includes

A document that is met again on its own path is not included again. Where the forms of a root and of
all documents are plain includes of documents that there are, the includer follows every path from
the root until it meets a document of the path again, and this is all that it reports. So it reports
something exactly when there is a cycle of includes that the root leads to.

* `revisits` — the documents that are met again, on all paths.
* `revisits_eq_nil_iff` — there are none exactly when no cycle is reached.
* `Includer.rewrite_traces` — what an includer reports is what is met again.
* `includeSource_revisits`, `includeSource_cycles` — whole documents.
-/

open Relation (ReflTransGen TransGen)

/-! ### Meeting a document again -/

/-- Whether the second vertex is one of those that come next to the first. -/
def Edge (next : String → List String) (d e : String) : Prop := e ∈ next d

/-- The vertices that are met again on the paths that go on from a vertex. `active` is the path that
    leads to it, and `levels` bounds how far the paths go on. -/
def revisits (next : String → List String) : Nat → List String → String → List String
  | 0, active, d => if d ∈ active then [d] else []
  | levels + 1, active, d =>
    if d ∈ active then [d] else (next d).flatMap (revisits next levels (d :: active))

section

variable {next : String → List String}

/-- A document that is going is revisited, and the search stops there. -/
theorem revisits_of_mem {levels : Nat} {active : List String} {d : String} (h : d ∈ active) :
    revisits next levels active d = [d] := by
  cases levels <;> rw [revisits, if_pos h]

/-- **A vertex that is met again** is on a cycle, which the root reaches. -/
theorem mem_revisits {root d : String} {levels : Nat} {active : List String}
    (hroot : ReflTransGen (Edge next) root d) (hactive : ∀ a ∈ active, TransGen (Edge next) a d)
    {x : String} (hx : x ∈ revisits next levels active d) :
    ReflTransGen (Edge next) root x ∧ TransGen (Edge next) x x := by
  induction levels generalizing active d with
  | zero =>
    rw [revisits] at hx
    split at hx
    case isTrue h =>
      obtain rfl := List.mem_singleton.mp hx
      exact ⟨hroot, hactive x h⟩
    case isFalse => cases hx
  | succ levels ih =>
    rw [revisits] at hx
    split at hx
    case isTrue h =>
      obtain rfl := List.mem_singleton.mp hx
      exact ⟨hroot, hactive x h⟩
    case isFalse =>
      -- the path goes on by one edge, which leads on from every vertex of it
      obtain ⟨e, he, hx⟩ := List.mem_flatMap.mp hx
      refine ih (hroot.tail he) ?_ hx
      intro a ha
      rcases List.mem_cons.mp ha with rfl | ha
      · exact .single he
      · exact (hactive a ha).tail he

/-- Where nothing is met again, no path comes back to the vertices before it, and none to itself.
    The paths have to be followed as far as there are vertices left. -/
theorem not_transGen_of_revisits {vertices : List String} (hnext : ∀ d, next d ⊆ vertices)
    {levels : Nat} {active : List String} {d : String} (hd : d ∈ vertices) (hnodup : active.Nodup)
    (hsub : active ⊆ vertices) (hlevels : vertices.length ≤ levels + active.length)
    (h : revisits next levels active d = []) {x : String} (hx : ReflTransGen (Edge next) d x) :
    x ∉ active ∧ ¬TransGen (Edge next) x x := by
  have hnew : d ∉ active := by
    intro hmem
    rw [revisits_of_mem hmem] at h
    cases h
  induction levels generalizing active d x with
  | zero =>
    -- every vertex is on the path
    rw [Nat.zero_add] at hlevels
    have hperm := (List.subperm_of_subset hnodup hsub).perm_of_length_le hlevels
    exact absurd (hperm.mem_iff.mpr hd) hnew
  | succ levels ih =>
    rw [revisits, if_neg hnew, List.flatMap_eq_nil_iff] at h
    have hon : ∀ e ∈ next d, ∀ x, ReflTransGen (Edge next) e x →
        x ∉ d :: active ∧ ¬TransGen (Edge next) x x := by
      intro e he x hx
      have hempty := h e he
      refine ih (hnext d he) (List.nodup_cons.mpr ⟨hnew, hnodup⟩)
        (List.cons_subset.mpr ⟨hd, hsub⟩) ?_ hempty hx ?_
      · rw [List.length_cons]
        omega
      · intro hmem
        rw [revisits_of_mem hmem] at hempty
        cases hempty
    rcases hx.cases_head with rfl | ⟨e, he, hx⟩
    · -- a cycle through the vertex itself would come back to it
      refine ⟨hnew, fun hcycle => ?_⟩
      obtain ⟨e, he, hback⟩ := TransGen.head'_iff.mp hcycle
      exact (hon e he _ hback).1 List.mem_cons_self
    · obtain ⟨hpath, hcycle⟩ := hon e he x hx
      exact ⟨fun hmem => hpath (List.mem_cons_of_mem d hmem), hcycle⟩

/-- **Nothing is met again** exactly when no cycle is reached. -/
theorem revisits_eq_nil_iff {vertices : List String} (hnext : ∀ d, next d ⊆ vertices) {levels : Nat}
    {root : String} (hroot : root ∈ vertices) (hlevels : vertices.length ≤ levels) :
    revisits next levels [] root = [] ↔
      ¬∃ d, ReflTransGen (Edge next) root d ∧ TransGen (Edge next) d d := by
  constructor
  · rintro h ⟨d, hd, hcycle⟩
    exact (not_transGen_of_revisits hnext hroot List.nodup_nil (List.nil_subset _) hlevels h hd).2
      hcycle
  · intro h
    rw [List.eq_nil_iff_forall_not_mem]
    intro x hx
    exact h ⟨x, mem_revisits .refl (by simp) hx⟩

end

/-! ### Plain includes -/

namespace Node

/-- The targets of the `include` forms among and inside nodes. -/
def includeTargets (ns : List Node) : List String :=
  (ns.flatMap preorder).filterMap fun n =>
    if n.headName? = some Includer.includeWord then n.target? else none

@[simp] theorem includeTargets_append (ns ms : List Node) :
    includeTargets (ns ++ ms) = includeTargets ns ++ includeTargets ms := by
  simp only [includeTargets, List.flatMap_append, List.filterMap_append]

/-- The targets in a group are its own, if it is an `include` form, and those in its contents. -/
theorem includeTargets_group (d : Delim) (cs : List Node) (l stop : Location) :
    includeTargets [.group d cs l stop]
      = (if (Node.group d cs l stop).headName? = some Includer.includeWord then
          (Node.group d cs l stop).target?.toList else []) ++ includeTargets cs := by
  rw [includeTargets, List.flatMap_singleton, preorder_group, List.filterMap_cons, includeTargets]
  by_cases hhead : (Node.group d cs l stop).headName? = some Includer.includeWord
  · rw [if_pos hhead, if_pos hhead]
    cases (Node.group d cs l stop).target? <;> rfl
  · rw [if_neg hhead, if_neg hhead, List.nil_append]

theorem includeTargets_cons (n : Node) (ns : List Node) :
    includeTargets (n :: ns) = includeTargets [n] ++ includeTargets ns := by
  rw [← includeTargets_append, List.singleton_append]

/-- Nodes that are no groups include nothing. -/
theorem includeTargets_of_no_groups {ns : List Node} (h : ∀ n ∈ ns, n.isGroup = false) :
    includeTargets ns = [] := by
  induction ns with
  | nil => rfl
  | cons n ns ih =>
    rw [List.forall_mem_cons] at h
    have hn : includeTargets [n] = [] := by
      cases n with
      | group => cases h.1
      | atom => rfl
      | comment => rfl
    rw [includeTargets_cons, hn, ih h.2, List.nil_append]

end Node

/-- Whether the forms among and inside nodes are all `(include e)`, where `e` is a document. -/
def IncludesOnly (library : List (String × String)) (ns : List Node) : Prop :=
  ∀ g ∈ ns.flatMap Node.preorder,
    ∀ word ∈ [Includer.includeWord, Includer.modulesWord, Includer.rootOnlyWord],
      g.headName? = some word →
        word = Includer.includeWord ∧ ∃ e ∈ g.target?, (library.lookup e).isSome

instance (library : List (String × String)) (ns : List Node) :
    Decidable (IncludesOnly library ns) :=
  inferInstanceAs (Decidable (∀ g ∈ ns.flatMap Node.preorder, ∀ word ∈ [_, _, _], _ → _ ∧ _))

/-- Whether every document of a library is scanned without a report, and its forms are all
    `(include e)`, where `e` is a document. -/
structure PlainLibrary (library : List (String × String)) (limit : Nat) : Prop where
  silent : ∀ p ∈ library, (parse { origin := p.1, limit } p.2).2 = []
  plain : ∀ p ∈ library, IncludesOnly library (parse { origin := p.1, limit } p.2).1

/-- The documents that a document includes, in the order of its forms. -/
def includesOf (library : List (String × String)) (limit : Nat) (d : String) : List String :=
  match library.lookup d with
  | some text => Node.includeTargets (parse { origin := d, limit } text).1
  | none => []

/-- Whether a document contains the form `(include e)`. -/
def Includes (library : List (String × String)) (limit : Nat) (d e : String) : Prop :=
  e ∈ includesOf library limit d

namespace Like

variable {ns ms : List Node} {L : Likeness}

/-- Nodes that are alike include the same. -/
theorem includeTargets (h : Like L ns ms) : Node.includeTargets ms = Node.includeTargets ns := by
  induction h with
  | nil => rfl
  | dropped _ _ ih => exact ih
  | comment _ _ _ _ ih => exact ih
  | atom _ _ _ _ ih => exact ih
  | @group d d' cs cs' l l' s s' ns ms hdelim hcs hplace hstop _ ihcs ih =>
    have htwin : L.Twin (.group d cs l s) (.group d' cs' l' s') := .group hdelim hcs hplace hstop
    rw [Node.includeTargets_cons, Node.includeTargets_group, htwin.headName?, htwin.target?, ihcs,
      ih, ← Node.includeTargets_group, ← Node.includeTargets_cons]

/-- Nodes that are alike include the same documents. -/
theorem includesOnly (h : Like L ns ms) {library : List (String × String)}
    (hns : IncludesOnly library ns) : IncludesOnly library ms := by
  intro m hm word hword hhead
  obtain ⟨n, hn, htwin⟩ := h.exists_twin_of_head hm hhead
  rw [htwin.target?]
  exact hns n hn word hword (htwin.headName?.symm.trans hhead)

end Like

/-- The target of an include is the name of a document. -/
theorem PlainLibrary.includesOf_subset {library : List (String × String)} {limit : Nat}
    (h : PlainLibrary library limit) (d : String) :
    includesOf library limit d ⊆ library.map Prod.fst := by
  intro e he
  unfold includesOf at he
  split at he
  case h_2 => cases he
  case h_1 text htext =>
    obtain ⟨g, hg, hform⟩ := List.mem_filterMap.mp he
    split at hform
    case isFalse => cases hform
    case isTrue hhead =>
      obtain ⟨-, e', he', hknown⟩ :=
        h.plain (d, text) (mem_of_lookup htext) g hg _ (by simp) hhead
      obtain rfl : e' = e := Option.some.inj (he'.symm.trans hform)
      obtain ⟨p, hp, hname⟩ := List.lookup_isSome_iff.mp hknown
      exact List.mem_map.mpr ⟨p, hp, (by simpa using hname : e' = p.1).symm⟩

namespace Includer

variable {docs : List (String × String)} {id text : String} {limit : Nat} {s : Includer}

/-! ### What is reported -/

/-- Whether an includer includes documents as they are, under a root document. -/
structure Following (docs : List (String × String)) (id : String) (limit : Nat) (s : Includer) :
    Prop where
  sound : s.Sound docs
  root : s.root = some id
  limit : s.limit = limit
  filtering : s.filtering = false

/-- What is told to the includer leaves it where it is. -/
theorem Following.adding (h : Following docs id limit s) (rs : List Report) (asked : List String) :
    Following docs id limit (s.adding rs asked) :=
  ⟨h.sound.adding rs asked, h.root, h.limit, h.filtering⟩

/-- The root is active. -/
theorem Following.mem_going (h : Following docs id limit s) : id ∈ s.going := by
  simp [going, h.root]

section

variable {replay : List Node → Includer → Option (Includer × List Node)}

/-- What is shown of a replay: it ends, and reports the documents that are met again. -/
def Traces (docs : List (String × String)) (id text : String) (limit room : Nat)
    (replay : List Node → Includer → Option (Includer × List Node)) : Prop :=
  ∀ ns s, IncludesOnly ((id, text) :: docs) ns → Following docs id limit s →
    docs.length ≤ room + s.included.length →
      ∃ rs asked ms, replay ns s = some (s.adding rs asked, ms) ∧
        rs.map Report.problem = ((Node.includeTargets ns).flatMap
          (revisits (includesOf ((id, text) :: docs) limit) room s.going)).map .recursiveInclude

/-- A document that is not active goes through. -/
theorem replace_traces (hlib : PlainLibrary ((id, text) :: docs) limit) {room : Nat}
    (hreplay : ∀ room', room' + 1 = room → Traces docs id text limit room' replay)
    (hs : Following docs id limit s) (hroom : docs.length ≤ room + s.included.length) {form : Node}
    {e : String} (hhead : form.headName? = some includeWord) (htarget : form.target? = some e)
    (hknown : (((id, text) :: docs).lookup e).isSome) :
    ∃ rs asked ms, (cutter (.ofList docs)).replace replay form s = some (s.adding rs asked, ms) ∧
      rs.map Report.problem
        = (revisits (includesOf ((id, text) :: docs) limit) room s.going e).map
            .recursiveInclude := by
  have hword : form.headName? ∈ [some includeWord, some modulesWord] := by simp [hhead]
  by_cases hactive : e ∈ s.going
  · refine ⟨_, _, _, replace_active hword htarget hactive, ?_⟩
    rw [hs.filtering, revisits_of_mem hactive]
    rfl
  · -- the document is not the root, so it is one of those that can be included
    have hne : e ≠ id := fun h => hactive (h ▸ hs.mem_going)
    obtain ⟨doc, hdoc⟩ := Option.isSome_iff_exists.mp hknown
    have hlookup : docs.lookup e = some doc := by
      rwa [List.lookup_cons, beq_false_of_ne hne] at hdoc
    have hmem : (e, doc) ∈ (id, text) :: docs := mem_of_lookup hdoc
    have hplain : (form.headName? = some modulesWord || s.filtering) = false := by
      simp [hhead, hs.filtering, includeWord, modulesWord]
    -- it is scanned as it is anywhere else
    obtain ⟨hnodes, hreports⟩ := like_parseFrom form limit e doc
    rw [hlib.silent (e, doc) hmem] at hreports
    have hsilent : (s.spliced form e doc false).2 = [] := by
      rw [spliced_all, hs.limit]
      exact List.forall₂_nil_left_iff.mp hreports
    rw [← hs.limit, ← spliced_all, hs.limit] at hnodes
    have hnext : includesOf ((id, text) :: docs) limit e
        = Node.includeTargets (s.spliced form e doc false).1 := by
      rw [includesOf, hdoc]
      exact hnodes.includeTargets.symm
    have hfollowing : Following docs id limit (s.including form e doc false) :=
      ⟨hs.sound.going_including hactive hlookup form false, hs.root, hs.limit, hs.filtering⟩
    obtain ⟨room', rfl, hroom'⟩ := hfollowing.sound.exists_level hroom
    obtain ⟨rs, asked, ms, hms, hproblems⟩ := hreplay room' rfl (s.spliced form e doc false).1 _
      (hnodes.includesOnly (hlib.plain (e, doc) hmem)) hfollowing hroom'
    refine ⟨rs, asked ++ [e], ms, ?_, ?_⟩
    · rw [replace_found hword htarget hactive hlookup, hplain, hms]
      simp [cutter, including, adding, hsilent]
    · rw [hproblems, going_including, revisits, if_neg hactive, hnext]

mutual

/-- Including a node traces the documents that it names. -/
theorem rewriteNode_traces (hlib : PlainLibrary ((id, text) :: docs) limit) {room : Nat}
    (hreplay : ∀ room', room' + 1 = room → Traces docs id text limit room' replay) :
    ∀ (n : Node) (s : Includer), IncludesOnly ((id, text) :: docs) [n] →
      Following docs id limit s → docs.length ≤ room + s.included.length →
        ∃ rs asked ms, (cutter (.ofList docs)).rewriteNode replay n s
            = some (s.adding rs asked, ms) ∧
          rs.map Report.problem = ((Node.includeTargets [n]).flatMap
            (revisits (includesOf ((id, text) :: docs) limit) room s.going)).map
              .recursiveInclude
  | .atom a, s, _, _, _ => ⟨[], [], [.atom a], by rw [adding_nil]; rfl, rfl⟩
  | .comment c, s, _, _, _ => ⟨[], [], [.comment c], by rw [adding_nil]; rfl, rfl⟩
  | .group d cs l stop, s, hn, hs, hroom => by
    rw [IncludesOnly, List.flatMap_singleton, Node.preorder_group, List.forall_mem_cons] at hn
    obtain ⟨hself, hcs⟩ := hn
    rw [Node.includeTargets_group]
    by_cases hword : ∃ word ∈ [includeWord, modulesWord, rootOnlyWord],
        (Node.group d cs l stop).headName? = some word
    · -- a form, inside which there is nothing to follow
      obtain ⟨word, hmem, hhead⟩ := hword
      obtain ⟨rfl, e, htarget, hknown⟩ := hself word hmem hhead
      obtain ⟨rs, asked, ms, hms, hproblems⟩ :=
        replace_traces hlib hreplay hs hroom hhead htarget hknown
      have hinside : Node.includeTargets cs = [] :=
        Node.includeTargets_of_no_groups (Node.isGroup_of_target? htarget)
      refine ⟨rs, asked, ms, ?_, ?_⟩
      · rw [rewriteNode_target _ _ (by simp [hhead]) htarget, hms]
      · rw [hproblems, if_pos hhead, htarget, hinside]
        simp
    · -- any other group stays
      have hother : ∀ word ∈ [includeWord, modulesWord, rootOnlyWord],
          (Node.group d cs l stop).headName? ≠ some word :=
        fun word hmem heq => hword ⟨word, hmem, heq⟩
      obtain ⟨rs, asked, ms, hms, hproblems⟩ :=
        rewriteAll_traces hlib hreplay cs s hcs hs hroom
      refine ⟨rs, asked, [.group d ms l stop], ?_, ?_⟩
      · rw [Cutter.rewriteNode, ask_other _ s hother, hms]
        rfl
      · rw [hproblems, if_neg (hother _ (by simp)), List.nil_append]

/-- Plain includes are followed, if those in what is included are. -/
theorem rewriteAll_traces (hlib : PlainLibrary ((id, text) :: docs) limit) {room : Nat}
    (hreplay : ∀ room', room' + 1 = room → Traces docs id text limit room' replay) :
    Traces docs id text limit room ((cutter (.ofList docs)).rewriteAll replay)
  | [], s, _, _, _ => ⟨[], [], [], by rw [adding_nil]; rfl, rfl⟩
  | n :: ns, s, hns, hs, hroom => by
    rw [IncludesOnly, List.flatMap_cons, List.forall_mem_append] at hns
    have hfirst : IncludesOnly ((id, text) :: docs) [n] := by
      rw [IncludesOnly, List.flatMap_singleton]
      exact hns.1
    obtain ⟨rs, asked, ms, hms, hproblems⟩ :=
      rewriteNode_traces hlib hreplay n s hfirst hs hroom
    obtain ⟨qs, asked', ks, hks, hproblems'⟩ := rewriteAll_traces hlib hreplay ns
      (s.adding rs asked) hns.2 (hs.adding rs asked) hroom
    refine ⟨rs ++ qs, asked' ++ asked, ms ++ ks, ?_, ?_⟩
    · rw [Cutter.rewriteAll, hms, Option.bind_some, hks, Option.map_some, adding_adding]
    · rw [List.map_append, hproblems, hproblems', Node.includeTargets_cons n ns,
        List.flatMap_append, List.map_append, going_adding]

end

end

/-- **What is reported is what is met again**, within as many levels as there are further
    documents. -/
theorem rewrite_traces (hlib : PlainLibrary ((id, text) :: docs) limit) (levels : Nat) :
    Traces docs id text limit levels ((cutter (.ofList docs)).rewrite levels) := by
  induction levels with
  | zero => exact rewriteAll_traces hlib fun _ h => absurd h (by simp)
  | succ levels ih =>
    refine rewriteAll_traces hlib fun room' h => ?_
    obtain rfl := Nat.succ.inj h
    exact ih

end Includer

/-! ### Whole documents -/

/-- **All that is reported** is what is met again on the paths from the root. -/
theorem includeSource_revisits {docs : List (String × String)} {id text : String} {limit : Nat}
    (hlib : PlainLibrary ((id, text) :: docs) limit) :
    ∃ loaded : Loaded,
      (∀ levels, docs.length ≤ levels →
        includeSource (.ofList docs) levels id text limit = some loaded) ∧
      loaded.reports.map Report.problem
        = (revisits (includesOf ((id, text) :: docs) limit) (docs.length + 1) [] id).map
            .recursiveInclude := by
  have hplain : Node.plainAll (parse { origin := id, limit } text).1
      = (parse { origin := id, limit } text).1 := Builder.plainAll_build _
  have hsilent : (parse { origin := id, limit } text).2 = [] :=
    hlib.silent (id, text) List.mem_cons_self
  have hroot : ((id, text) :: docs).lookup id = some text := by simp
  obtain ⟨rs, asked, ms, hms, hproblems⟩ := Includer.rewrite_traces hlib docs.length
    (parse { origin := id, limit } text).1 (.opening id text limit)
    (hlib.plain (id, text) List.mem_cons_self)
    ⟨Includer.sound_of_empty rfl, rfl, rfl, rfl⟩ (Nat.le_add_right _ _)
  -- the run of one depth is the run of every greater one
  refine ⟨{ nodes := ms, reports := rs, consulted := asked.reverse }, ?_, ?_⟩
  · intro levels hlevels
    rw [includeSource_eq_rewrite, hplain, Cutter.rewrite_mono hlevels _ _ _ hms, Option.map_some]
    simp only [Includer.adding, Includer.opening, hsilent, List.nil_append, List.append_nil]
  · rw [hproblems]
    simp only [revisits, List.not_mem_nil, if_false, includesOf, hroot]
    rfl

/-- **Cycles are found exactly.** In a library whose documents are scanned without reports, and
    whose forms are all plain includes of its documents, including a document ends, within as many
    levels as there are other documents. All that is reported is documents that recursively include
    themselves: each of them is on a cycle of includes that the root leads to, and there is such a
    report exactly when there is such a cycle. So a document on no cycle is never reported, by
    however many paths it is included. -/
theorem includeSource_cycles {docs : List (String × String)} {id text : String} {limit : Nat}
    (hlib : PlainLibrary ((id, text) :: docs) limit) :
    let edge := Includes ((id, text) :: docs) limit
    ∃ loaded : Loaded,
      (∀ levels, docs.length ≤ levels →
        includeSource (.ofList docs) levels id text limit = some loaded) ∧
      (∀ r ∈ loaded.reports,
        ∃ d, r.problem = .recursiveInclude d ∧ ReflTransGen edge id d ∧ TransGen edge d d) ∧
      ((∃ r ∈ loaded.reports, ∃ d, r.problem = .recursiveInclude d) ↔
        ∃ d, ReflTransGen edge id d ∧ TransGen edge d d) ∧
      ∀ d, ¬TransGen edge d d → ∀ r ∈ loaded.reports, r.problem ≠ .recursiveInclude d := by
  intro edge
  obtain ⟨loaded, hloaded, hproblems⟩ := includeSource_revisits hlib
  have hreported : ∀ r ∈ loaded.reports,
      ∃ d, r.problem = .recursiveInclude d ∧ ReflTransGen edge id d ∧ TransGen edge d d := by
    intro r hr
    have hmem := List.mem_map_of_mem (f := Report.problem) hr
    rw [hproblems] at hmem
    obtain ⟨d, hd, heq⟩ := List.mem_map.mp hmem
    exact ⟨d, heq.symm, mem_revisits .refl (by simp) hd⟩
  refine ⟨loaded, hloaded, hreported, ?_, ?_⟩
  · constructor
    · rintro ⟨r, hr, -⟩
      obtain ⟨d, -, hcycle⟩ := hreported r hr
      exact ⟨d, hcycle⟩
    · intro hcycle
      by_contra hnone
      -- nothing would be met again
      have hempty : loaded.reports = [] := by
        rw [List.eq_nil_iff_forall_not_mem]
        intro r hr
        obtain ⟨d, hproblem, -⟩ := hreported r hr
        exact hnone ⟨r, hr, d, hproblem⟩
      rw [hempty, List.map_nil, eq_comm, List.map_eq_nil_iff] at hproblems
      refine (revisits_eq_nil_iff hlib.includesOf_subset ?_ ?_).mp hproblems hcycle
      · exact List.mem_map.mpr ⟨(id, text), List.mem_cons_self, rfl⟩
      · simp
  · intro d hno r hr hproblem
    obtain ⟨d', hproblem', -, hcycle⟩ := hreported r hr
    obtain rfl : d = d' := Problem.recursiveInclude.inj (hproblem.symm.trans hproblem')
    exact hno hcycle

/-- A document that is included twice and leads to two documents that include each other: the second
    of the two is found to include the first on either path, and the shared document is not
    reported. -/
theorem includeSource_cycles_shared :
    let docs := [("a", "x (include c)"), ("c", "(include d)"), ("d", "[(include c ; back
)]")]
    let text := "(include a) (b (include a))"
    PlainLibrary (("main", text) :: docs) 1024 ∧
      ∃ loaded, (∀ levels, 3 ≤ levels →
          includeSource (.ofList docs) levels "main" text 1024 = some loaded) ∧
        loaded.reports.map Report.problem = [.recursiveInclude "c", .recursiveInclude "c"] ∧
        ∃ d, ReflTransGen (Includes (("main", text) :: docs) 1024) "main" d ∧
          TransGen (Includes (("main", text) :: docs) 1024) d d := by
  intro docs text
  have hlib : PlainLibrary (("main", text) :: docs) 1024 := by
    refine ⟨?_, ?_⟩ <;> decide +kernel
  obtain ⟨loaded, hloaded, -, hiff, -⟩ := includeSource_cycles hlib
  have hreports : (includeSource (.ofList docs) 3 "main" text 1024).map
      (fun l => l.reports.map Report.problem)
        = some [.recursiveInclude "c", .recursiveInclude "c"] := by decide +kernel
  rw [hloaded 3 (Nat.le_refl 3), Option.map_some, Option.some_inj] at hreports
  refine ⟨hlib, loaded, hloaded, hreports, hiff.mp ?_⟩
  -- two reports are made of one cycle, as it is reached on two ways
  have hmem : Problem.recursiveInclude "c" ∈ loaded.reports.map Report.problem := by
    rw [hreports]
    exact List.mem_cons_self
  obtain ⟨r, hr, hproblem⟩ := List.mem_map.mp hmem
  exact ⟨r, hr, "c", hproblem⟩

end Formwork
