import Formwork.Proofs.Include.Emptied
import Formwork.Proofs.Include.Ends

namespace Formwork

/-!
# What a dropped form holds

A `no-include` form of an included document is dropped, but only when its contents have been
searched: forms inside it that include a document are replaced first. So what it holds has no effect
on the nodes, and can only add reports and ask for documents; and if it includes nothing it has no
effect at all.

* `Includer.Later` — what a run leaves as it was, and what it adds to.
* `Includer.follows_rewrite` — a run with emptied forms follows the run without.
* `includeSource_emptied` — the results of the two.
* `includeSource_dropped_reports` — a dropped form whose contents are reported.
-/

open Likeness (shape)

namespace Includer

/-! ### One run -/

/-- What a run of an includer leaves as it was, and what it adds to. -/
structure Later (s s' : Includer) : Prop where
  root : s'.root = s.root
  limit : s'.limit = s.limit
  stack : s'.stack = s.stack
  reports : s.reports <+: s'.reports
  consulted : s.consulted <:+ s'.consulted

/-- A later includer is in the root document exactly when the earlier one was. -/
theorem Later.inRoot {s s' : Includer} (h : s.Later s') : s'.inRoot = s.inRoot := by
  rw [Includer.inRoot, Includer.included, h.stack, Includer.inRoot, Includer.included]

/-- Every answer has been taken off the stack when it has gone through. -/
theorem settles_later (docs : Documents) : (cutter docs).Settles Later where
  refl s := ⟨rfl, rfl, rfl, List.prefix_rfl, List.suffix_rfl⟩
  trans s s' s'' h h' :=
    ⟨h'.root.trans h.root, h'.limit.trans h.limit, h'.stack.trans h.stack,
      h.reports.trans h'.reports, h.consulted.trans h'.consulted⟩
  cut s head := ⟨rfl, rfl, rfl, List.prefix_rfl, List.suffix_rfl⟩
  refused s b hnone := by
    -- of the three ways a form is pasted only the first one pastes nothing
    obtain ⟨_, _, -, hp⟩ | ⟨_, -, -, -, hp⟩ | ⟨_, _, _, _, -, -, -, -, hp⟩ := paste_cases docs s b
    · rw [hp]
      exact ⟨rfl, rfl, rfl, List.prefix_append _ _, List.suffix_append _ _⟩
    · rw [hp] at hnone
      cases hnone
    · rw [hp] at hnone
      cases hnone
  answered s b s' hsome h := by
    obtain ⟨_, _, -, hp⟩ | ⟨_, -, -, -, hp⟩ | ⟨_, _, _, _, -, -, -, -, hp⟩ := paste_cases docs s b
    · rw [hp] at hsome
      cases hsome
    · rw [hp] at h
      -- the replay comes back with the document on the stack, which is taken off again
      exact ⟨h.root, h.limit, congrArg List.tail h.stack, h.reports, h.consulted⟩
    · rw [hp] at h
      exact ⟨h.root, h.limit, congrArg List.tail h.stack,
        (List.prefix_append _ _).trans h.reports, (List.suffix_cons _ _).trans h.consulted⟩

/-- Inside a document a `no-include` form is dropped. -/
theorem paste_dropped (docs : Documents) {s : Includer} (hin : s.inRoot = false) {form : Node}
    (hhead : form.headName? = some rootOnlyWord) :
    (cutter docs).paste s (Builder.holding form) = (s, none) := by
  show s.replace docs form = (s, none)
  simp [replace, hhead, hin]

section

variable {docs : Documents} {replay : List Node → Includer → Option (Includer × List Node)}
  {s : Includer}

/-- A `no-include` form is asked about, and handed over. -/
theorem rewriteNode_of_rootOnly {d : Delim} {cs : List Node} {l stop : Location}
    (hhead : (Node.group d cs l stop).headName? = some rootOnlyWord) :
    (cutter docs).rewriteNode replay (.group d cs l stop) s
      = ((cutter docs).rewriteAll replay cs s).bind fun r =>
          (cutter docs).replace replay (.group d r.2 l stop) r.1 := by
  have hask : (cutter docs).ask s (some rootOnlyWord) = (s, true) := rfl
  rw [Cutter.rewriteNode, hhead, hask]
  rfl

mutual

/-- Inside a document a node that includes nothing changes nothing. -/
theorem rewriteNode_includeless (hin : s.inRoot = false) :
    ∀ (n : Node) (r : Includer × List Node), n.Includeless →
      (cutter docs).rewriteNode replay n s = some r → r.1 = s
  | .atom a, r, _, hr => by
    cases hr
    rfl
  | .comment c, r, _, hr => by
    cases hr
    rfl
  | .group d cs l stop, r, ⟨hinclude, hmodules, hinside⟩, hr => by
    -- a `no-include` form is dropped, and no other group is asked about
    by_cases hhead : (Node.group d cs l stop).headName? = some rootOnlyWord
    · rw [rewriteNode_of_rootOnly hhead] at hr
      obtain ⟨q, hq, hr⟩ := Option.bind_eq_some_iff.mp hr
      have hsame := rewriteAll_includeless hin cs q hinside hq
      have hdropped := paste_dropped docs (hsame ▸ hin)
        (Cutter.headName?_rewriteAll hq hhead)
      rw [Cutter.replace_of_none hdropped] at hr
      cases hr
      exact hsame
    · have hask : (cutter docs).ask s (Node.group d cs l stop).headName? = (s, false) := by
        cases hname : (Node.group d cs l stop).headName? with
        | none => rfl
        | some head =>
          rw [hname] at hinclude hmodules hhead
          rw [Ne, Option.some_inj] at hinclude hmodules
          rw [Option.some_inj] at hhead
          simp [Cutter.ask, cutter, hinclude, hmodules, hhead]
      rw [Cutter.rewriteNode, hask] at hr
      obtain ⟨q, hq, hr⟩ := Option.bind_eq_some_iff.mp hr
      cases hr
      exact rewriteAll_includeless hin cs q hinside hq

/-- Inside a document nodes that include nothing change nothing. -/
theorem rewriteAll_includeless (hin : s.inRoot = false) :
    ∀ (ns : List Node) (r : Includer × List Node), Node.IncludelessAll ns →
      (cutter docs).rewriteAll replay ns s = some r → r.1 = s
  | [], r, _, hr => by
    cases hr
    rfl
  | n :: ns, r, ⟨hn, hns⟩, hr => by
    obtain ⟨q, hq, hr⟩ := Option.bind_eq_some_iff.mp hr
    obtain ⟨p, hp, rfl⟩ := Option.map_eq_some_iff.mp hr
    have hsame := rewriteNode_includeless hin n q hn hq
    rw [hsame] at hp
    exact rewriteAll_includeless hin ns p hns hp

end

/-- **What a dropped form does**: nothing takes its place, and it only adds to the reports and the
    documents asked for; if it includes nothing, it does nothing. -/
theorem rewriteNode_dropped (hreplay : Cutter.SettlesOn Later replay) (hin : s.inRoot = false)
    {form : Node} (hhead : form.headName? = some rootOnlyWord) {r : Includer × List Node}
    (hr : (cutter docs).rewriteNode replay form s = some r) :
    r.2 = [] ∧ s.Later r.1 ∧ (form.Includeless → r.1 = s) := by
  obtain ⟨d, cs, l, stop, rfl⟩ := Node.exists_group_of_headName? hhead
  have hnode := hr
  rw [rewriteNode_of_rootOnly hhead] at hr
  obtain ⟨q, hq, hr⟩ := Option.bind_eq_some_iff.mp hr
  have hlater := (settles_later docs).rewriteAll hreplay cs s q hq
  have hdropped := paste_dropped docs (hlater.inRoot.trans hin)
    (Cutter.headName?_rewriteAll hq hhead)
  rw [Cutter.replace_of_none hdropped] at hr
  cases hr
  exact ⟨rfl, hlater, fun h => rewriteNode_includeless hin _ _ h hnode⟩

/-- Nodes without groups are left alone. -/
theorem rewriteAll_of_no_groups {ns : List Node} (h : ∀ n ∈ ns, n.isGroup = false) :
    (cutter docs).rewriteAll replay ns s = some (s, ns) := by
  induction ns with
  | nil => rfl
  | cons n ns ih =>
    rw [List.forall_mem_cons] at h
    have hn : (cutter docs).rewriteNode replay n s = some (s, [n]) := by
      cases n with
      | group => cases h.1
      | _ => rfl
    rw [Cutter.rewriteAll, hn, Option.bind_some, ih h.2]
    rfl

/-- An empty form is dropped, and that is all. -/
theorem rewriteNode_empty (hin : s.inRoot = false) {form : Node}
    (hhead : form.headName? = some rootOnlyWord) (htail : form.tail = []) :
    (cutter docs).rewriteNode replay form s = some (s, []) := by
  obtain ⟨d, cs, l, stop, rfl⟩ := Node.exists_group_of_headName? hhead
  have hcs : ∀ n ∈ cs, n.isGroup = false := by
    intro n hn
    cases n with
    | group d' cs' l' stop' =>
      have hexpr : Node.group d' cs' l' stop' ∈ (Node.group d cs l stop).exprs :=
        List.mem_filter.mpr ⟨hn, rfl⟩
      -- the head is the only child that counts, and it is an atom
      rw [Node.tail, List.drop_one] at htail
      rw [Node.headName?, Node.head?] at hhead
      cases hexprs : (Node.group d cs l stop).exprs with
      | nil =>
        rw [hexprs] at hexpr
        cases hexpr
      | cons a as =>
        rw [hexprs] at hexpr htail hhead
        obtain rfl : as = [] := htail
        obtain rfl := List.mem_singleton.mp hexpr
        cases hhead
    | _ => rfl
  rw [rewriteNode_of_rootOnly hhead, rewriteAll_of_no_groups hcs, Option.bind_some]
  exact Cutter.replace_of_none (paste_dropped docs hin hhead)

end

/-! ### Two runs -/

/-- Whether two includers have the same going through, and the second has reported and asked for no
    more than the first: for exactly as much, under `quiet`. -/
structure Abreast (quiet : Prop) (id : String) (limit : Nat) (s t : Includer) : Prop where
  root : s.root = some id
  root' : t.root = some id
  bound : s.limit = limit
  bound' : t.limit = limit
  stack : t.stack = s.stack
  reports : (t.reports.map Report.problem).Sublist (s.reports.map Report.problem)
  consulted : t.consulted.Sublist s.consulted
  exact : quiet → t.reports.map Report.problem = s.reports.map Report.problem ∧
    t.consulted = s.consulted

/-- Whether the second documents are the first with `no-include` forms emptied. The document `id` is
    the root, and is not looked at. -/
def EmptiedDocuments (quiet : Prop) (id : String) (limit : Nat) (docs docs' : List (String × String)) :
    Prop :=
  ∀ id', id' ≠ id →
    Option.Rel (EmptiedText quiet { origin := id', limit }) (docs.lookup id') (docs'.lookup id')

variable {quiet : Prop} {id : String} {limit : Nat} {docs docs' : List (String × String)}
  {s t : Includer}

/-- One document with forms that are emptied. -/
theorem EmptiedDocuments.of_singleton {id' text text' : String}
    (h : EmptiedText quiet { origin := id', limit } text text') :
    EmptiedDocuments quiet id limit [(id', text)] [(id', text')] := by
  intro other _
  rw [List.lookup_cons, List.lookup_cons]
  split
  case h_1 heq =>
    obtain rfl : other = id' := by simpa using heq
    exact .some h
  case h_2 => exact .none

/-- The forms that may be emptied while an includer is in some state: none in the root. -/
def MayDrop (quiet : Prop) (s : Includer) (form : Node) : Prop :=
  s.inRoot = false ∧ MayEmpty quiet form

namespace Abreast

theorem included (h : Abreast quiet id limit s t) : t.included = s.included := by
  rw [Includer.included, h.stack, Includer.included]

theorem inRoot (h : Abreast quiet id limit s t) : t.inRoot = s.inRoot := by
  rw [Includer.inRoot, h.included, Includer.inRoot]

theorem filtering (h : Abreast quiet id limit s t) : t.filtering = s.filtering := by
  rw [Includer.filtering, h.included, Includer.filtering]

/-- Both have the same documents going. -/
theorem isActive (h : Abreast quiet id limit s t) (id' : String) :
    t.isActive id' = s.isActive id' := by
  rw [Includer.isActive, h.root', h.included, Includer.isActive, h.root]

/-- A document that is not active is not the root. -/
theorem ne_of_isActive (h : Abreast quiet id limit s t) {id' : String}
    (hactive : ¬s.isActive id' = true) : id' ≠ id := by
  rintro rfl
  simp [Includer.isActive, h.root] at hactive

/-- They stay abreast as they report the same problems, -/
theorem report (h : Abreast quiet id limit s t) {rs qs : List Report}
    (hrs : qs.map Report.problem = rs.map Report.problem) :
    Abreast quiet id limit (s.report rs) (t.report qs) :=
  { h with
    reports := by
      show ((t.reports ++ qs).map _).Sublist ((s.reports ++ rs).map _)
      rw [List.map_append, List.map_append, hrs]
      exact h.reports.append (List.Sublist.refl _)
    exact := fun hquiet => by
      show (t.reports ++ qs).map _ = (s.reports ++ rs).map _ ∧ _
      rw [List.map_append, List.map_append, hrs, (h.exact hquiet).1]
      exact ⟨rfl, (h.exact hquiet).2⟩ }

/-- as both look up the same document, -/
theorem consult (h : Abreast quiet id limit s t) (id' : String) :
    Abreast quiet id limit { s with consulted := id' :: s.consulted }
      { t with consulted := id' :: t.consulted } :=
  { h with
    consulted := h.consulted.cons_cons id'
    exact := fun hquiet => ⟨(h.exact hquiet).1, congrArg (id' :: ·) (h.exact hquiet).2⟩ }

/-- as both go into a form or a document, -/
theorem restack (h : Abreast quiet id limit s t) (e : Option Included) :
    Abreast quiet id limit { s with stack := e :: s.stack } { t with stack := e :: t.stack } :=
  { h with stack := congrArg (e :: ·) h.stack }

/-- and as both come back from it. -/
theorem pasted (h : Abreast quiet id limit s t) :
    Abreast quiet id limit { s with stack := s.stack.tail } { t with stack := t.stack.tail } :=
  { h with stack := congrArg List.tail h.stack }

/-- The first of the two runs may go on alone, as long as it comes back to the same stack. -/
theorem later (h : Abreast quiet id limit s t) {s' : Includer} (hlater : s.Later s')
    (hexact : quiet → s' = s) : Abreast quiet id limit s' t where
  root := hlater.root.trans h.root
  root' := h.root'
  bound := hlater.limit.trans h.bound
  bound' := h.bound'
  stack := h.stack.trans hlater.stack.symm
  reports := h.reports.trans (hlater.reports.sublist.map _)
  consulted := h.consulted.trans hlater.consulted.sublist
  exact hquiet := by
    rw [hexact hquiet]
    exact h.exact hquiet

end Abreast

/-- The first argument that is an atom, of nodes that differ in their locations only. -/
theorem firstAtomArgument_eq {ns ms : List Node} (h : List.Forall₂ shape.Twin ns ms) :
    firstAtomArgument ms = firstAtomArgument ns := by
  -- the second list is taken apart along the first, whose atoms have twins with the same text
  fun_induction firstAtomArgument ns generalizing ms with
  | case1 =>
    cases h
    rfl
  | case2 n ns hatom ih =>
    cases h with
    | @cons _ m _ ms hn hns =>
      have hnone : m.atom? = none := by
        have hsame := hn.isNone_atom?
        rw [hatom] at hsame
        exact Option.isNone_iff_eq_none.mp hsame
      rw [firstAtomArgument.eq_def]
      simp only [hnone]
      exact ih hns
  | case3 n a hatom hkeyword =>
    cases h with
    | @cons _ m _ ms hn hns =>
      cases hns
      obtain ⟨b, hb, -, hsame⟩ := hn.exists_atom hatom
      rw [firstAtomArgument.eq_def]
      simp only [hb, hsame, hkeyword, if_true]
  | case4 n a hatom hkeyword n' ns ih =>
    cases h with
    | @cons _ m _ ms hn hns =>
      cases hns with
      | cons _ hns =>
        obtain ⟨b, hb, -, hsame⟩ := hn.exists_atom hatom
        rw [firstAtomArgument.eq_def]
        simp only [hb, hsame, hkeyword, if_true]
        exact ih hns
  | case5 n ns a hatom hkeyword =>
    cases h with
    | @cons _ m _ ms hn hns =>
      obtain ⟨b, hb, hvalue, hsame⟩ := hn.exists_atom hatom
      rw [firstAtomArgument.eq_def]
      simp only [hb, hsame, if_neg hkeyword, hvalue]

/-- The target of forms that differ in their locations only. -/
theorem includeTarget_eq {form form' : Node} (h : shape.Twin form form') :
    includeTarget form' = includeTarget form := by
  rw [includeTarget, firstAtomArgument_eq h.tail, includeTarget]

/-- What a scan gives is plain, and so is what a module include keeps of it. -/
theorem plainAll_spliced (s : Includer) (form : Node) (id text : String) (modulesOnly : Bool) :
    Node.plainAll (s.spliced form id text modulesOnly).1 = (s.spliced form id text modulesOnly).1 := by
  have hplain := Builder.plainAll_build
    (scan { origin := id, base := some form.location, limit := s.limit } text).events
  rw [Node.plainAll_eq_self_iff] at hplain ⊢
  intro n hn
  refine hplain n ?_
  unfold spliced at hn
  cases modulesOnly with
  | false => exact hn
  | true => exact List.mem_of_mem_filter hn

/-- What takes the place of a form that includes a text, before and after forms in it are emptied. -/
theorem emptied_spliced (h : Abreast quiet id limit s t) {id' text text' : String}
    (htext : EmptiedText quiet { origin := id', limit } text text') (form form' : Node)
    (modulesOnly : Bool) :
    Emptied (MayEmpty quiet) (Node.plainAll (s.spliced form id' text modulesOnly).1)
        (Node.plainAll (t.spliced form' id' text' modulesOnly).1) ∧
      (t.spliced form' id' text' modulesOnly).2.map Report.problem
        = (s.spliced form id' text modulesOnly).2.map Report.problem := by
  let src : Source := { origin := id', base := some form.location, limit := s.limit }
  let src' : Source := { origin := id', base := some form'.location, limit := t.limit }
  obtain ⟨hnodes, hreports⟩ : Emptied (MayEmpty quiet) (parse src text).1 (parse src' text').1 ∧
      (parse src' text').2.map Report.problem = (parse src text).2.map Report.problem :=
    htext.parse h.bound h.bound'
  refine ⟨?_, hreports⟩
  rw [plainAll_spliced, plainAll_spliced]
  show Emptied _ (if modulesOnly then (parse src text).1.filter keptByModules else (parse src text).1)
    (if modulesOnly then (parse src' text').1.filter keptByModules else (parse src' text').1)
  split
  · exact hnodes.filter_keptByModules
  · exact hnodes

/-- Whether the answers to two forms are alike, and leave the includers abreast. -/
inductive Answers (quiet : Prop) (id : String) (limit : Nat) :
    Includer × Option (List Event) → Includer × Option (List Event) → Prop where
  | none {s t : Includer} (h : Abreast quiet id limit s t) : Answers quiet id limit (s, none) (t, none)
  | some {s t : Includer} {ns ms : List Node} (h : Abreast quiet id limit s t)
      (hnodes : Emptied (MayDrop quiet s) (Node.plainAll ns) (Node.plainAll ms)) :
      Answers quiet id limit (s, some (Node.eventsAll ns)) (t, some (Node.eventsAll ms))

/-- Including documents before and after forms in them are emptied. -/
theorem answers_includeDocument (hdocs : EmptiedDocuments quiet id limit docs docs')
    (h : Abreast quiet id limit s t) {form form' : Node} (hform : shape.Twin form form')
    (modulesOnly : Bool) :
    Answers quiet id limit (s.includeDocument (.ofList docs) form modulesOnly)
      (t.includeDocument (.ofList docs') form' modulesOnly) := by
  have hidentify : (Documents.ofList docs').identify form' = (Documents.ofList docs).identify form :=
    includeTarget_eq hform
  unfold includeDocument
  rw [hidentify]
  split
  case h_1 why _ => exact .none (h.report rfl)
  case h_2 id' _ =>
    rw [h.isActive]
    split
    -- both sides have the same stack and are filtering alike, so both are quiet or both report
    case isTrue =>
      rw [h.filtering]
      split
      · exact .none h
      · exact .none (h.report rfl)
    case isFalse hactive =>
      have hlookup := hdocs id' (h.ne_of_isActive hactive)
      have hconsulted := h.consult id'
      simp only [Documents.ofList]
      -- both libraries have a document of that name, or neither has
      generalize docs.lookup id' = x at hlookup ⊢
      generalize docs'.lookup id' = y at hlookup ⊢
      cases hlookup with
      | none => exact .none (hconsulted.report rfl)
      | @some text text' htext =>
        obtain ⟨hnodes, hreports⟩ := emptied_spliced hconsulted htext form form' modulesOnly
        refine .some ((hconsulted.report hreports).restack _) (hnodes.mono fun _ hmay => ⟨?_, hmay⟩)
        rfl

/-- Handing over forms that differ in their locations only. -/
theorem answers_replace (hdocs : EmptiedDocuments quiet id limit docs docs')
    (h : Abreast quiet id limit s t) {form form' : Node} (hform : shape.Twin form form') :
    Answers quiet id limit (s.replace (.ofList docs) form) (t.replace (.ofList docs') form') := by
  unfold replace
  rw [hform.headName?]
  split
  case h_1 => exact .none h
  case h_2 head _ =>
    split
    case isTrue =>
      rw [h.inRoot]
      split
      · exact .some (h.restack none) (Like.of_twins hform.tail).plain.emptied
      · exact .none h
    case isFalse =>
      rw [h.filtering]
      exact answers_includeDocument hdocs h hform _

/-- Whether, if the first of two runs has a result, the second has one too: with the includers
    abreast and nodes that differ in their locations only. -/
def Comes (quiet : Prop) (id : String) (limit : Nat) (x y : Option (Includer × List Node)) : Prop :=
  ∀ r, x = some r → ∃ q, y = some q ∧ Abreast quiet id limit r.1 q.1 ∧ Like shape r.2 q.2

section

variable {x y : Option (Includer × List Node)}

/-- Going on from results. -/
theorem Comes.bind (h : Comes quiet id limit x y)
    {f g : Includer × List Node → Option (Includer × List Node)}
    (hfg : ∀ r q, x = some r → Abreast quiet id limit r.1 q.1 → Like shape r.2 q.2 →
      Comes quiet id limit (f r) (g q)) :
    Comes quiet id limit (x.bind f) (y.bind g) := by
  intro r' hr'
  obtain ⟨r, hr, hr'⟩ := Option.bind_eq_some_iff.mp hr'
  obtain ⟨q, hq, hrq, hlike⟩ := h r hr
  rw [hq, Option.bind_some]
  exact hfg r q hr hrq hlike r' hr'

/-- What is done to both results alike leaves them alike. -/
theorem Comes.map (h : Comes quiet id limit x y)
    {f g : Includer × List Node → Includer × List Node}
    (hfg : ∀ r q, Abreast quiet id limit r.1 q.1 → Like shape r.2 q.2 →
      Abreast quiet id limit (f r).1 (g q).1 ∧ Like shape (f r).2 (g q).2) :
    Comes quiet id limit (x.map f) (y.map g) := by
  intro r' hr'
  obtain ⟨r, hr, rfl⟩ := Option.map_eq_some_iff.mp hr'
  obtain ⟨q, hq, hrq, hlike⟩ := h r hr
  exact ⟨g q, by rw [hq, Option.map_some], hfg r q hrq hlike⟩

theorem comes_some {s t : Includer} {ns ms : List Node} (h : Abreast quiet id limit s t)
    (hlike : Like shape ns ms) : Comes quiet id limit (some (s, ns)) (some (t, ms)) := by
  rintro _ ⟨⟩
  exact ⟨_, rfl, h, hlike⟩

end

/-- What is shown of two replays of nodes before and after forms in them are emptied. -/
def Follows (quiet : Prop) (id : String) (limit : Nat)
    (replay replay' : List Node → Includer → Option (Includer × List Node)) : Prop :=
  ∀ ns ms s t, Abreast quiet id limit s t → Emptied (MayDrop quiet s) ns ms →
    Comes quiet id limit (replay ns s) (replay' ms t)

section

variable {replay replay' : List Node → Includer → Option (Includer × List Node)}

/-- What takes the place of forms that differ in their locations only. -/
theorem follows_replace (hdocs : EmptiedDocuments quiet id limit docs docs')
    (hreplay : Follows quiet id limit replay replay') (h : Abreast quiet id limit s t)
    {form form' : Node} (hform : shape.Twin form form') :
    Comes quiet id limit ((cutter (.ofList docs)).replace replay form s)
      ((cutter (.ofList docs')).replace replay' form' t) := by
  have hanswers := answers_replace hdocs h hform
  have hpaste : ∀ (docs : Documents) (s : Includer) (form : Node),
      (cutter docs).paste s (Builder.holding form) = s.replace docs form := fun _ _ _ => rfl
  unfold Cutter.replace
  rw [hpaste, hpaste]
  generalize s.replace (.ofList docs) form = x at hanswers ⊢
  generalize t.replace (.ofList docs') form' = y at hanswers ⊢
  cases hanswers with
  | none h' => exact comes_some h' .nil
  | some h' hnodes =>
    simp only [Builder.build_eventsAll]
    exact (hreplay _ _ _ _ h' hnodes).map fun r q hrq hlike => ⟨hrq.pasted, hlike⟩

/-- When the first nodes have gone through, the others follow. The run has left the stack as it was,
    so the same forms may be dropped. -/
theorem Comes.cons (hlater : Cutter.SettlesOn Later replay) {P : Node → Prop} {n m : Node}
    {ns ms : List Node} {s t : Includer} (hP : ∀ form, P form → MayDrop quiet s form)
    (hnode : Comes quiet id limit ((cutter (.ofList docs)).rewriteNode replay n s)
      ((cutter (.ofList docs')).rewriteNode replay' m t))
    (hrest : ∀ {s t : Includer}, Abreast quiet id limit s t →
      (∀ form, P form → MayDrop quiet s form) →
      Comes quiet id limit ((cutter (.ofList docs)).rewriteAll replay ns s)
        ((cutter (.ofList docs')).rewriteAll replay' ms t)) :
    Comes quiet id limit ((cutter (.ofList docs)).rewriteAll replay (n :: ns) s)
      ((cutter (.ofList docs')).rewriteAll replay' (m :: ms) t) := by
  rw [Cutter.rewriteAll, Cutter.rewriteAll]
  refine hnode.bind fun r q hr hrq hlike => ?_
  have hroot := ((settles_later _).rewriteNode hlater _ _ _ hr).inRoot
  have hP' : ∀ form, P form → MayDrop quiet r.1 form :=
    fun form hform => ⟨hroot.trans (hP form hform).1, (hP form hform).2⟩
  exact (hrest hrq hP').map fun r' q' hrq' hlike' => ⟨hrq', hlike.append hlike'⟩

/-- Rewriting groups with the same head, when the second run follows inside them. -/
theorem follows_group (hdocs : EmptiedDocuments quiet id limit docs docs')
    (hreplay : Follows quiet id limit replay replay') {d : Delim} {cs cs' : List Node}
    {l l' stop stop' : Location}
    (hhead : (Node.group d cs' l' stop').headName? = (Node.group d cs l stop).headName?)
    (hcs : Comes quiet id limit ((cutter (.ofList docs)).rewriteAll replay cs s)
      ((cutter (.ofList docs')).rewriteAll replay' cs' t)) :
    Comes quiet id limit ((cutter (.ofList docs)).rewriteNode replay (.group d cs l stop) s)
      ((cutter (.ofList docs')).rewriteNode replay' (.group d cs' l' stop') t) := by
  rw [Cutter.rewriteNode, Cutter.rewriteNode, ask_fst, ask_fst, hhead]
  refine hcs.bind fun r q _ hrq hlike => ?_
  have hgroup : shape.Twin (.group d r.2 l stop) (.group d q.2 l' stop') :=
    .group rfl hlike trivial trivial
  -- which groups are handed over depends on their heads only
  have hask : ((cutter (.ofList docs')).ask t (Node.group d cs l stop).headName?).2
      = ((cutter (.ofList docs)).ask s (Node.group d cs l stop).headName?).2 := by
    cases (Node.group d cs l stop).headName? <;> rfl
  rw [hask]
  split
  · exact follows_replace hdocs hreplay hrq hgroup
  · exact comes_some hrq hgroup.like

/-- Rewriting a form and what it is when emptied: both come to nothing, the first on its own. -/
theorem follows_emptied (hlater : Cutter.SettlesOn Later replay) (h : Abreast quiet id limit s t)
    {form form' : Node} (hform : MayDrop quiet s form)
    (hhead : form.headName? = some rootOnlyWord) (hhead' : form'.headName? = some rootOnlyWord)
    (htail : form'.tail = []) :
    Comes quiet id limit ((cutter (.ofList docs)).rewriteNode replay form s)
      ((cutter (.ofList docs')).rewriteNode replay' form' t) := by
  intro r hr
  obtain ⟨hin, hmay⟩ := hform
  obtain ⟨hnothing, hrun, hsilent⟩ := rewriteNode_dropped hlater hin hhead hr
  refine ⟨(t, []), rewriteNode_empty (h.inRoot.trans hin) hhead' htail, ?_, ?_⟩
  · exact h.later hrun fun hquiet => hsilent (hmay hquiet)
  · rw [hnothing]
    exact .nil

/-- Rewriting nodes before and after forms in them are emptied. The induction is on what relates the
    nodes. -/
theorem follows_rewriteAll (hdocs : EmptiedDocuments quiet id limit docs docs')
    (hlater : Cutter.SettlesOn Later replay) (hreplay : Follows quiet id limit replay replay') :
    Follows quiet id limit ((cutter (.ofList docs)).rewriteAll replay)
      ((cutter (.ofList docs')).rewriteAll replay') := by
  -- what may be emptied does not depend on the includer, which changes on the way
  have hall : ∀ {P : Node → Prop} {ns ms : List Node}, Emptied P ns ms → ∀ {s t : Includer},
      Abreast quiet id limit s t → (∀ form, P form → MayDrop quiet s form) →
      Comes quiet id limit ((cutter (.ofList docs)).rewriteAll replay ns s)
        ((cutter (.ofList docs')).rewriteAll replay' ms t) := by
    intro P ns ms hnodes
    induction hnodes with
    | nil => exact fun h _ => comes_some h .nil
    | comment htext _ ih =>
      intro s t h hP
      simp only [Cutter.rewriteAll, Cutter.rewriteNode, Option.bind_some]
      exact (ih h hP).map fun r q hrq hlike => ⟨hrq, .comment rfl htext trivial hlike⟩
    | atom hvalue hquoted _ ih =>
      intro s t h hP
      simp only [Cutter.rewriteAll, Cutter.rewriteNode, Option.bind_some]
      exact (ih h hP).map fun r q hrq hlike => ⟨hrq, .atom hvalue hquoted trivial hlike⟩
    | @group d cs cs' l l' stop stop' ns ms hcs _ ihcs ih =>
      intro s t h hP
      have hhead := hcs.headName? d l l' stop stop'
      exact .cons hlater hP (follows_group hdocs hreplay hhead (ihcs h hP)) ih
    | @emptied form form' ns ms hform hhead hhead' htail _ ih =>
      intro s t h hP
      exact .cons hlater hP (follows_emptied hlater h (hP form hform) hhead hhead' htail) ih
  exact fun ns ms s t h hnodes => hall hnodes h fun _ hform => hform

end

/-- **A run with emptied forms follows the run without**, at every number of levels. -/
theorem follows_rewrite (hdocs : EmptiedDocuments quiet id limit docs docs') (levels : Nat) :
    Follows quiet id limit ((cutter (.ofList docs)).rewrite levels)
      ((cutter (.ofList docs')).rewrite levels) := by
  induction levels with
  | zero =>
    exact follows_rewriteAll hdocs (by simp [Cutter.SettlesOn]) fun _ _ _ _ _ _ _ hr => nomatch hr
  | succ levels ih =>
    exact follows_rewriteAll hdocs ((settles_later _).rewrite levels) ih

end Includer

/-! ### Whole documents -/

open Includer (EmptiedDocuments)

/-- **What dropped forms hold has no effect on the nodes.** When `no-include` forms of documents
    other than the root are emptied, including ends within as many levels as before and gives the same
    nodes. The problems that it reports and the documents that it asks for are among those from
    before, in the same order, and they are exactly those if the forms include nothing, which is what
    `quiet` stands for. -/
theorem includeSource_emptied {quiet : Prop} {docs docs' : List (String × String)} {id : String}
    {limit : Nat} (hdocs : EmptiedDocuments quiet id limit docs docs') {levels : Nat} {text : String}
    {loaded : Loaded}
    (hends : includeSource (.ofList docs) levels id text limit = some loaded) :
    ∃ loaded', includeSource (.ofList docs') levels id text limit = some loaded' ∧
      Node.sameAll loaded.nodes loaded'.nodes = true ∧
      (loaded'.reports.map Report.problem).Sublist (loaded.reports.map Report.problem) ∧
      loaded'.consulted.Sublist loaded.consulted ∧
      (quiet → loaded'.reports.map Report.problem = loaded.reports.map Report.problem ∧
        loaded'.consulted = loaded.consulted) := by
  rw [includeSource_eq_rewrite, Option.map_eq_some_iff] at hends
  obtain ⟨r, hr, rfl⟩ := hends
  -- both runs start from the same document
  have hstart : Includer.Abreast quiet id limit (.opening id text limit) (.opening id text limit) :=
    ⟨rfl, rfl, rfl, rfl, rfl, List.Sublist.refl _, List.Sublist.refl _, fun _ => ⟨rfl, rfl⟩⟩
  have hlike : Like shape (parse { origin := id, limit } text).1
      (parse { origin := id, limit } text).1 := (like_parse rfl text).1
  obtain ⟨q, hq, hrq, hnodes⟩ :=
    Includer.follows_rewrite hdocs levels _ _ _ _ hstart hlike.plain.emptied r hr
  have hsame := hnodes.sameAll_seen Likeness.shape_isSeenBy
  rw [List.map_id, List.map_id] at hsame
  refine ⟨_, by rw [includeSource_eq_rewrite, hq, Option.map_some], hsame, hrq.reports,
    List.reverse_sublist.mpr hrq.consulted, fun hquiet => ⟨(hrq.exact hquiet).1, ?_⟩⟩
  exact congrArg List.reverse (hrq.exact hquiet).2

section

open Includer (round word)

/-- A document that holds a form for itself only: without its contents, including gives the same. -/
theorem includeSource_emptied_shared :
    let docs := [("lib", "(shared) (no-include (lib-only))")]
    let docs' := [("lib", "(shared) (no-include)")]
    let text := "(no-include (local)) (include lib)"
    EmptiedDocuments True "main" 1024 docs docs' ∧
      ∃ loaded, includeSource (.ofList docs) 1 "main" text 1024 = some loaded ∧
        Node.textAll loaded.nodes = "(local) (shared)" ∧
        ∃ loaded', includeSource (.ofList docs') 1 "main" text 1024 = some loaded' ∧
          Node.sameAll loaded.nodes loaded'.nodes = true ∧
          (loaded'.reports.map Report.problem).Sublist (loaded.reports.map Report.problem) ∧
          loaded'.consulted.Sublist loaded.consulted ∧
          (True → loaded'.reports.map Report.problem = loaded.reports.map Report.problem ∧
            loaded'.consulted = loaded.consulted) := by
  intro docs docs' text
  have hdocs : EmptiedDocuments True "main" 1024 docs docs' := by
    refine .of_singleton (.of_shapes
      [round [word "shared"], round [word "no-include", round [word "lib-only"]]]
      [round [word "shared"], round [word "no-include"]]
      (by decide +kernel) (by decide +kernel) ?_)
    -- what is emptied out names no document, so nothing is left unread
    have hform : (round [word "no-include", round [word "lib-only"]]).Includeless :=
      ⟨by decide, by decide, trivial, ⟨by decide, by decide, trivial, trivial⟩, trivial⟩
    exact .group (.atom rfl rfl .nil) (.emptied (fun _ => hform) rfl rfl rfl .nil)
  have hrun : ((includeSource (.ofList docs) 1 "main" text 1024).map fun l => Node.textAll l.nodes)
      = some "(local) (shared)" := by decide +kernel
  obtain ⟨loaded, hloaded, htext⟩ := Option.map_eq_some_iff.mp hrun
  exact ⟨hdocs, loaded, hloaded, htext, includeSource_emptied hdocs hloaded⟩

/-- **Dropped forms are reported on.** Without the contents of its only form a document is included
    without a report; with them the form is dropped too, but the include form that it holds is
    reported first. -/
theorem includeSource_dropped_reports :
    let docs := [("d", "(no-include (include e))")]
    let docs' := [("d", "(no-include)")]
    EmptiedDocuments False "main" 1024 docs docs' ∧
      ((includeSource (.ofList docs) 1 "main" "(include d)" 1024).map fun l =>
          (l.nodes.length, l.reports.map Report.problem))
        = some (0, [.unresolvableInclude "there is no document called e"]) ∧
      ((includeSource (.ofList docs') 1 "main" "(include d)" 1024).map fun l =>
          (l.nodes.length, l.reports.map Report.problem)) = some (0, []) := by
  intro docs docs'
  refine ⟨?_, by decide +kernel, by decide +kernel⟩
  refine .of_singleton (.of_shapes [round [word "no-include", round [word "include", word "e"]]]
    [round [word "no-include"]] (by decide +kernel) (by decide +kernel) ?_)
  exact .emptied (fun h => h.elim) rfl rfl rfl .nil

end

end Formwork
