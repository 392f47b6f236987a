import Formwork.Proofs.References.Sightings
import Formwork.Proofs.Resolver.Calls
import Mathlib.Data.List.Perm.Basic

namespace Formwork

/-!
# Checking references is complete

The checker goes through a document once and decides each reference when it can; what it has decided
in the end does not depend on that order. After each part of the walk the state of the checker
*agrees* with what has been noted so far: the references that are met by the forms noted so far have
been answered, and the others wait.

* `ReferenceChecker.Agrees` — the invariant, with one lemma for each thing that the checker does.
* `ReferenceChecker.visitAll_agrees` — going through nodes notes what the walk over them notes.
* `checkReferences_complete` — each reference is answered once or reported once.
-/

/-! ### Scopes, definitions and references in a resolver -/

/-- The block that a scope is for a resolver. -/
def Scope.block (s : Scope) : Block ReferenceKind := ⟨s.number, s.kinds.map ReferenceKind.mk⟩

/-- The definition that a form makes in the block with a number. -/
def Naming.definition (number : Nat) (d : Naming) : Definition ReferenceKind Node :=
  { block := number, id := d.id, kind := ⟨d.kind⟩, value := d.form, origin := d.form }

/-- The requirement that a reference makes. -/
def Mention.requirement (r : Mention) : Requirement ReferenceKind (String × Node) :=
  { path := r.around.map Scope.number, id := r.id, kind := .any, origin := r.site
    tag := (r.id, r.site) }

/-- A block takes what its scope takes. -/
theorem Scope.any_accepts_iff (s : Scope) (kind : String) :
    (s.block.kinds.any fun k => Kind.accepts k (⟨kind⟩ : ReferenceKind)) = decide (s.Takes kind) := by
  rw [Bool.eq_iff_iff, decide_eq_true_iff]
  simp [Scope.block, Scope.Takes, Kind.accepts, ReferenceKind.any, and_or_left, exists_or]

/-- A definition goes to the block of the scope where it lands. -/
theorem Naming.find?_block (d : Naming) :
    (d.around.map Scope.block).find?
        (fun b => b.kinds.any fun k => Kind.accepts k (⟨d.kind⟩ : ReferenceKind))
      = (d.around.find? fun s => s.Takes d.kind).map Scope.block := by
  rw [List.find?_map]
  congr 2
  funext s
  exact s.any_accepts_iff d.kind

/-- The kinds of definitions do not matter to a reference. -/
theorem Mention.requirement_metBy_iff {r : Mention} {d : Naming} {number : Nat}
    (hlands : d.lands? = some number) :
    r.requirement.MetBy (d.definition number) ↔ r.MetBy d := by
  simp [Requirement.MetBy, Mention.MetBy, requirement, Naming.definition, Kind.accepts, hlands,
    eq_comm]

namespace Resolver

variable {r : Resolver ReferenceKind Node (String × Node)} {path : List Nat} {id : String}

/-- For the kind that takes all others, nothing is found exactly when nothing is in sight. -/
theorem lookup_any_eq_none_iff :
    r.lookup path id .any = none ↔ ∀ n ∈ path, r.definition? id n = none := by
  have hall : ∀ d : Definition ReferenceKind Node, Kind.accepts ReferenceKind.any d.kind = true :=
    fun d => by simp [Kind.accepts]
  rw [lookup, Option.map_eq_none_iff, List.find?_eq_none]
  simp only [hall, not_true_eq_false, imp_false]
  rw [← List.eq_nil_iff_forall_not_mem, visible, List.filterMap_eq_nil_iff]

/-- For the kind that takes all others, what is found is a definition of a block of the path. -/
theorem of_lookup_any_eq_some {target : Node} (h : r.lookup path id .any = some target) :
    ∃ n ∈ path, ∃ d, r.definition? id n = some d ∧ d.value = target := by
  obtain ⟨d, hd, hvalue⟩ := Option.map_eq_some_iff.mp h
  obtain ⟨n, hn, hfound⟩ := List.mem_filterMap.mp (List.mem_of_find?_eq_some hd)
  exact ⟨n, hn, d, hfound, hvalue⟩

end Resolver

/-! ### Settling -/

namespace ReferenceChecker

/-- The answer that an outcome is, if its reference was met. -/
def answer? (o : Outcome Node (String × Node)) : Option Resolved :=
  match o.result with
  | .ok target => some { id := o.tag.1, site := o.tag.2, target }
  | .error _ => none

/-- The failure that an outcome is, if its reference was not met. -/
def failure? (o : Outcome Node (String × Node)) : Option Unresolved :=
  match o.result with
  | .ok _ => none
  | .error failure => some failure

/-- What was decided is kept, answers apart from failures. -/
theorem settle_eq (c : ReferenceChecker)
    (step : Resolver ReferenceKind Node (String × Node) × List (Outcome Node (String × Node))) :
    c.settle step =
      { c with
        resolver := step.1
        resolved := c.resolved ++ step.2.filterMap answer?
        failed := c.failed ++ step.2.filterMap failure? } := by
  obtain ⟨r, outcomes⟩ := step
  unfold settle
  -- generalised over the checker, which every outcome changes
  suffices h : ∀ c : ReferenceChecker,
      outcomes.foldl (fun c outcome =>
        match outcome.result with
        | .ok target =>
          { c with resolved := c.resolved ++ [{ id := outcome.tag.1, site := outcome.tag.2, target }] }
        | .error failure => { c with failed := c.failed ++ [failure] }) c
        = { c with
            resolved := c.resolved ++ outcomes.filterMap answer?
            failed := c.failed ++ outcomes.filterMap failure? } from
    h { c with resolver := r }
  induction outcomes with
  | nil => simp
  | cons o outcomes ih =>
    intro c
    rw [List.foldl_cons, ih]
    cases ho : o.result <;> simp [answer?, failure?, ho]

/-- A definition answers the references whose requirements it meets. -/
theorem filterMap_answer?_delivered (d : Naming) (number : Nat) (rs : List Mention) :
    (rs.map (Resolver.delivered (d.definition number) ∘ Mention.requirement)).filterMap answer?
      = rs.map fun r => r.answer d.form := by
  rw [List.filterMap_map, ← List.filterMap_eq_map]
  rfl

/-- A definition lets no reference fail. -/
theorem filterMap_failure?_delivered (d : Naming) (number : Nat) (rs : List Mention) :
    (rs.map (Resolver.delivered (d.definition number) ∘ Mention.requirement)).filterMap failure?
      = [] := by
  rw [List.filterMap_map]
  exact List.filterMap_eq_nil_iff.mpr fun _ _ => rfl

/-! ### Agreeing with what was noted -/

/-- What holds of a checker inside the scopes `around`, when the forms `ds` and the references `rs`
    have been noted so far. -/
structure Agrees (c : ReferenceChecker) (scopes : Scopes) (around : List Scope) (next : Nat)
    (ds : List Naming) (rs : List Mention) : Prop where
  scopes : c.scopes = scopes
  document : .document ∈ around
  sound : c.resolver.Sound
  blocks : c.resolver.blocks = around.map Scope.block
  next : c.resolver.next = next
  defined : ∀ id number, c.resolver.definition? id number
    = (Naming.first? ds id number).map (Naming.definition number)
  waiting : c.resolver.waiting = (rs.filter fun r => ¬r.Met ds).map Mention.requirement
  answered : Mention.Answered c.resolved ds rs
  failed : c.failed = []
  reports : c.reports = Naming.repeats ds

section

variable {c : ReferenceChecker} {scopes : Scopes} {around : List Scope} {next : Nat}
  {ds : List Naming} {rs : List Mention}

theorem Agrees.path (h : c.Agrees scopes around next ds rs) :
    c.resolver.path = around.map Scope.number := by
  rw [Resolver.path, h.blocks, List.map_map]
  rfl

/-! ### A reference -/

/-- Looking for a reference finds nothing exactly when no form so far meets it. -/
theorem Agrees.lookup_eq_none_iff (h : c.Agrees scopes around next ds rs) (r : Mention) :
    c.resolver.lookup (r.around.map Scope.number) r.id .any = none ↔ ¬r.Met ds := by
  rw [Resolver.lookup_any_eq_none_iff, List.forall_mem_map, Mention.met_iff]
  simp only [h.defined, Option.map_eq_none_iff, ← Option.ne_none_iff_exists', not_exists, not_and,
    ne_eq, not_not]

/-- What is found for a reference is a right answer to it. -/
theorem Agrees.answers_of_lookup (h : c.Agrees scopes around next ds rs) {r : Mention}
    {target : Node}
    (hfound : c.resolver.lookup (r.around.map Scope.number) r.id .any = some target) :
    r.AnsweredBy ds (r.answer target) := by
  obtain ⟨n, hn, e, he, hvalue⟩ := Resolver.of_lookup_any_eq_some hfound
  obtain ⟨s, hs, rfl⟩ := List.mem_map.mp hn
  rw [h.defined] at he
  obtain ⟨d, hd, rfl⟩ := Option.map_eq_some_iff.mp he
  obtain ⟨hmem, hid, hlands⟩ := Naming.of_first?_eq_some hd
  have hfirst : d.IsFirst ds := ⟨s.number, hlands, by rw [hid, hd]⟩
  exact ⟨rfl, rfl, d, hmem, ⟨hid, s, hs, hlands⟩, hfirst, hvalue.symm⟩

/-- A reference is answered now, if it is met by a form noted before, and waits otherwise. -/
theorem Agrees.require (h : c.Agrees scopes around next ds rs) {r : Mention}
    (hr : r.around = around) :
    (c.require r.site r.id).Agrees scopes around next ds (rs ++ [r]) := by
  subst hr
  have hnone := h.lookup_eq_none_iff r
  -- a definition is in sight and answers at once, or the mention waits
  cases hfound : c.resolver.lookup (r.around.map Scope.number) r.id .any with
  | some target =>
    have hmet : r.Met ds := by
      by_contra hnot
      rw [hnone.mpr hnot] at hfound
      cases hfound
    have hstep : c.resolver.resolve r.site r.id .any (r.id, r.site)
        = (c.resolver, [{ tag := (r.id, r.site), result := .ok target }]) := by
      simp only [Resolver.resolve, Resolver.find?, h.path, hfound]
    rw [ReferenceChecker.require, hstep, settle_eq]
    exact
      { h with
        waiting := by simp [h.waiting, List.filter_append, hmet]
        answered := h.answered.snoc_met hmet (h.answers_of_lookup hfound)
        failed := by simp [h.failed, failure?] }
  | none =>
    have hunmet : ¬r.Met ds := hnone.mp hfound
    have hopen : c.resolver.blocks.isEmpty = false := by
      rw [h.blocks, List.isEmpty_map]
      exact List.isEmpty_eq_false_iff.mpr (List.ne_nil_of_mem h.document)
    have hstep : c.resolver.resolve r.site r.id .any (r.id, r.site)
        = ({ c.resolver with waiting := c.resolver.waiting ++ [r.requirement] }, []) := by
      simp only [Resolver.resolve, Resolver.find?, h.path, hfound, hopen]
      rfl
    have hsound : (c.resolver.resolve r.site r.id .any (r.id, r.site)).1.Sound :=
      (Resolver.act_resolve_does c.resolver r.site r.id .any (r.id, r.site)).sound h.sound
    rw [hstep] at hsound
    rw [ReferenceChecker.require, hstep, settle_eq]
    exact
      { h with
        sound := hsound
        waiting := by simp [h.waiting, List.filter_append, hunmet]
        answered := by simpa using h.answered.snoc_unmet hunmet
        failed := by simp [h.failed] }

/-! ### A form that defines -/

/-- Since the document takes every kind, each form lands somewhere, and the resolver knows where. -/
theorem Agrees.accepting? (h : c.Agrees scopes around next ds rs) {d : Naming}
    (hd : d.around = around) :
    ∃ s : Scope, d.lands? = some s.number ∧ c.resolver.accepting? ⟨d.kind⟩ = some s.block := by
  subst hd
  have hsome : (d.around.find? fun s => s.Takes d.kind).isSome := by
    rw [List.find?_isSome]
    exact ⟨.document, h.document, by simp [Scope.Takes, Scope.document]⟩
  obtain ⟨s, hs⟩ := Option.isSome_iff_exists.mp hsome
  refine ⟨s, ?_, ?_⟩
  · rw [Naming.lands?, hs, Option.map_some]
  · rw [Resolver.accepting?, h.blocks, d.find?_block, hs, Option.map_some]

/-- A form that is not the first is reported, and changes nothing. -/
theorem Agrees.repeats (h : c.Agrees scopes around next ds rs) {d e : Naming} {number : Nat}
    (hlands : d.lands? = some number) (he : Naming.first? ds d.id number = some e) :
    ({ c with
        reports := c.reports ++
          [{ problem := .duplicateDefinition d.id, nodes := [d.form, e.form] }] } :
      ReferenceChecker).Agrees scopes around next (ds ++ [d]) rs := by
  -- the second definition of an identifier meets no mention that the first does not
  have hmet : ∀ r : Mention, r.Met (ds ++ [d]) ↔ r.Met ds := by
    intro r
    rw [Mention.met_append, Mention.met_singleton, or_iff_left_iff_imp]
    rintro ⟨hid, s, hs, hnumber⟩
    rw [hlands, Option.some.injEq] at hnumber
    exact Mention.met_iff.mpr ⟨s, hs, e, by rw [← hid, ← hnumber, he]⟩
  -- nor is it ever found
  have hfirst : ∀ id n, Naming.first? (ds ++ [d]) id n = Naming.first? ds id n := by
    intro id n
    rw [Naming.first?_append, Naming.first?_singleton]
    split
    case isTrue hsame =>
      obtain ⟨rfl, hn⟩ := hsame
      rw [hlands, Option.some.injEq] at hn
      rw [← hn, he, Option.some_or]
    case isFalse => rw [Option.or_none]
  obtain ⟨answers, hresolved, hperm, hright⟩ := h.answered
  refine { h with defined := ?_, waiting := ?_, answered := ?_, reports := ?_ }
  · intro id n
    rw [hfirst]
    exact h.defined id n
  · simp only [hmet]
    exact h.waiting
  · refine ⟨answers, hresolved, ?_, fun a ha => (hright a ha).append [d]⟩
    simpa only [hmet] using hperm
  · have hrepeat : d.repeat? ds
        = some { problem := .duplicateDefinition d.id, nodes := [d.form, e.form] } := by
      rw [Naming.repeat?, hlands, Option.bind_some, he, Option.map_some]
    rw [Naming.repeats_snoc, hrepeat, ← h.reports]
    rfl

/-- A list that is a list of images in another order comes from a list in that order. -/
private theorem exists_perm_of_perm_map {α β : Type} {f : α → β} {l : List β} {m : List α}
    (h : l.Perm (m.map f)) : ∃ m' : List α, m'.Perm m ∧ l = m'.map f := by
  have hf : List.Forall₂ (fun b a => b = f a) (m.map f) m :=
    List.forall₂_map_left_iff.mpr (List.forall₂_same.mpr fun _ _ => rfl)
  obtain ⟨m', hl, hm⟩ := List.perm_comp_forall₂ h hf
  refine ⟨m', hm, ?_⟩
  rwa [← List.forall₂_eq_eq_eq, List.forall₂_map_right_iff]

/-- A form that is the first answers the references that it meets. -/
theorem Agrees.stores (h : c.Agrees scopes around next ds rs) {d : Naming} {number : Nat}
    (hlands : d.lands? = some number) (hnew : Naming.first? ds d.id number = none)
    {outcomes : List (Outcome Node (String × Node))}
    (hmet : outcomes.Perm ((c.resolver.waiting.filter fun q => q.MetBy (d.definition number)).map
      (Resolver.delivered (d.definition number)))) :
    (c.settle (c.resolver.store (d.definition number), outcomes)).Agrees scopes around next
      (ds ++ [d]) rs := by
  have hundefined : c.resolver.definition? d.id number = none := by
    rw [h.defined, hnew, Option.map_none]
  have hfirst : d.IsFirst (ds ++ [d]) := by
    refine ⟨number, hlands, ?_⟩
    rw [Naming.first?_append, hnew, Naming.first?_singleton, if_pos ⟨rfl, hlands⟩, Option.none_or]
  -- the requirements that are decided are those of the references that only this form meets
  have hwoken : (c.resolver.waiting.filter fun q => q.MetBy (d.definition number))
      = ((rs.filter fun r => ¬r.Met ds).filter fun r => r.MetBy d).map Mention.requirement := by
    rw [h.waiting, List.filter_map]
    simp only [Function.comp_def, Mention.requirement_metBy_iff hlands]
  rw [hwoken, List.map_map] at hmet
  obtain ⟨woken, hperm, rfl⟩ := exists_perm_of_perm_map hmet
  rw [settle_eq, filterMap_answer?_delivered, filterMap_failure?_delivered, List.append_nil]
  refine
    { h with
      sound := h.sound.store hundefined, defined := ?_, waiting := ?_
      answered := h.answered.snoc_naming hperm hfirst, reports := ?_ }
  · intro id n
    show (c.resolver.add (d.definition number)).definition? id n = _
    rw [Resolver.definition?_add, h.defined, Naming.first?_append, Naming.first?_singleton,
      Option.map_or]
    congr 1
    by_cases hid : d.id = id
    · by_cases hn : number = n <;> simp [Naming.definition, hid, hn, hlands]
    · simp [Naming.definition, hid]
  · show (c.resolver.waiting.filter fun q => ¬q.MetBy (d.definition number)) = _
    rw [h.waiting, List.filter_map, List.filter_filter]
    congr 1
    refine List.filter_congr fun r _ => ?_
    simp [Mention.met_append, Mention.met_singleton, Mention.requirement_metBy_iff hlands,
      not_or, Bool.and_comm]
  · have hrepeat : d.repeat? ds = none := by
      rw [Naming.repeat?, hlands, Option.bind_some, hnew, Option.map_none]
    rw [Naming.repeats_snoc, hrepeat]
    simpa using h.reports

/-- A form that defines something is noted. -/
theorem Agrees.define (h : c.Agrees scopes around next ds rs) {d : Naming}
    (hd : d.around = around) (hkind : d.form.headName? = some d.kind)
    (hid : definedName? d.form = some d.id) :
    (c.define d.form).Agrees scopes around next (ds ++ [d]) rs := by
  obtain ⟨s, hlands, haccepting⟩ := h.accepting? hd
  have hdefined := h.defined d.id s.number
  -- the block that takes the definition has its identifier already, or it does not
  cases hfirst : Naming.first? ds d.id s.number with
  | some e =>
    rw [hfirst, Option.map_some] at hdefined
    have hrefused : c.resolver.define d.form d.id ⟨d.kind⟩ d.form
        = .error { problem := .duplicateDefinition d.id, nodes := [d.form, e.form] } := by
      simp only [Resolver.define, haccepting, Scope.block, hdefined]
      rfl
    simp only [ReferenceChecker.define, hkind, hid, hrefused]
    exact h.repeats hlands hfirst
  | none =>
    rw [hfirst, Option.map_none] at hdefined
    obtain ⟨hafter, hmet⟩ := Resolver.wake_add h.sound (d := d.definition s.number) hdefined
    have hstored : c.resolver.define d.form d.id ⟨d.kind⟩ d.form
        = .ok ((c.resolver.add (d.definition s.number)).wake d.id s.number) := by
      simp only [Resolver.define, haccepting, Scope.block, hdefined]
      rfl
    simp only [ReferenceChecker.define, hkind, hid, hstored]
    rw [← Prod.eta ((c.resolver.add (d.definition s.number)).wake d.id s.number)]
    rw [show ((c.resolver.add (d.definition s.number)).wake d.id s.number).1 = _ from hafter]
    exact h.stores hlands hfirst hmet

/-! ### Scopes that open and close -/

theorem Agrees.scope? (h : c.Agrees scopes around next ds rs) (form : Node) :
    c.scope? form = (scopes.kinds? form).map fun kinds => kinds.map .mk := by
  rw [ReferenceChecker.scope?, h.scopes]
  rfl

/-- The scope of a form goes around the scopes of what is inside. -/
theorem Agrees.enter (h : c.Agrees scopes around next ds rs) {form : Node} {kinds : List String}
    (hkinds : scopes.kinds? form = some kinds) :
    (c.enter form).Agrees scopes (⟨next, kinds⟩ :: around) (next + 1) ds rs := by
  have henter : c.enter form
      = { c with resolver := c.resolver.push (kinds.map ReferenceKind.mk) } := by
    simp only [ReferenceChecker.enter, h.scope?, hkinds, Option.map_some]
  rw [henter]
  exact
    { h with
      document := List.mem_cons_of_mem _ h.document
      sound := h.sound.push _
      blocks := by simp [Resolver.push, h.blocks, h.next, Scope.block]
      next := by simp [Resolver.push, h.next] }

/-- When the scope of a form closes, those around it are open again. -/
theorem Agrees.leave {s : Scope} (h : c.Agrees scopes (s :: around) next ds rs)
    (hdocument : .document ∈ around) {form : Node} {kinds : List String}
    (hkinds : scopes.kinds? form = some kinds) :
    (c.leave form).Agrees scopes around next ds rs := by
  have hblocks : c.resolver.blocks = s.block :: around.map Scope.block := h.blocks
  have hpop : c.resolver.pop = ({ c.resolver with blocks := around.map Scope.block }, []) := by
    obtain ⟨b, blocks, hb⟩ := List.exists_cons_of_ne_nil (List.ne_nil_of_mem hdocument)
    simp only [Resolver.pop, hblocks, hb, List.map_cons]
  have hleave : c.leave form
      = { c with resolver := { c.resolver with blocks := around.map Scope.block } } := by
    simp [ReferenceChecker.leave, h.scope?, hkinds, hpop, settle_eq]
  rw [hleave]
  exact { h with document := hdocument, sound := h.sound.tail hblocks, blocks := rfl }

/-! ### The walk -/

/-- What a form defines is noted. -/
theorem Agrees.ofForm (h : c.Agrees scopes around next ds rs) (form : Node) :
    (c.define form).Agrees scopes around next
      (ds ++ (Sighting.ofForm around form).filterMap Sighting.naming?)
      (rs ++ (Sighting.ofForm around form).filterMap Sighting.mention?) := by
  unfold Sighting.ofForm
  split
  case h_1 kind id hkind hid =>
    have hd := h.define (d := ⟨around, kind, id, form⟩) rfl hkind hid
    simpa [List.filterMap_cons, Sighting.naming?, Sighting.mention?] using hd
  case h_2 hnothing =>
    have hdefine : c.define form = c := by
      unfold ReferenceChecker.define
      split
      case h_1 kind id hkind hid => exact absurd hid (hnothing kind id hkind)
      case h_2 => rfl
    simpa [hdefine] using h

/-- What an atom refers to is noted. -/
theorem Agrees.ofAtom (h : c.Agrees scopes around next ds rs) (a : Atom) :
    (c.visit (.atom a)).Agrees scopes around next
      (ds ++ (Sighting.ofAtom around a).filterMap Sighting.naming?)
      (rs ++ (Sighting.ofAtom around a).filterMap Sighting.mention?) := by
  unfold Sighting.ofAtom visit
  cases a.reference? with
  | some id =>
    have hr := h.require (r := ⟨around, id, .atom a⟩) rfl
    simpa [List.filterMap_cons, Sighting.naming?, Sighting.mention?] using hr
  | none => simpa using h

mutual

/-- Going through a node notes what the walk over it notes. -/
theorem visit_agrees : ∀ (n : Node) {c : ReferenceChecker} {around : List Scope} {next : Nat}
    {ds : List Naming} {rs : List Mention}, c.Agrees scopes around next ds rs →
    (c.visit n).Agrees scopes around (next + scopes.openings [n])
      (ds ++ (Sighting.survey scopes around next n).filterMap Sighting.naming?)
      (rs ++ (Sighting.survey scopes around next n).filterMap Sighting.mention?)
  | .atom a, c, around, next, ds, rs, h => by
    rw [scopes.openings_atom]
    exact h.ofAtom a
  | .comment _, c, around, next, ds, rs, h => by
    rw [scopes.openings_comment]
    simpa [visit, Sighting.survey] using h
  | .group d cs l s, c, around, next, ds, rs, h => by
    have hform := h.ofForm (.group d cs l s)
    simp only [visit, Sighting.survey, scopes.openings_group, List.filterMap_append,
      ← List.append_assoc]
    -- a form that opens a scope is entered and left; any other only passes its children on
    cases hkinds : scopes.kinds? (.group d cs l s) with
    | some kinds =>
      have hinside := (visitAll_agrees cs (hform.enter hkinds)).leave h.document hkinds
      simpa only [Option.isSome_some, if_true, Nat.add_assoc] using hinside
    | none =>
      have hinside := visitAll_agrees cs hform
      have henter : (c.define (.group d cs l s)).enter (.group d cs l s)
          = c.define (.group d cs l s) := by
        simp only [ReferenceChecker.enter, hform.scope?, hkinds, Option.map_none]
      have hleave : ((c.define (.group d cs l s)).visitAll cs).leave (.group d cs l s)
          = (c.define (.group d cs l s)).visitAll cs := by
        simp only [ReferenceChecker.leave, hinside.scope?, hkinds, Option.map_none]
      rw [henter, hleave]
      simpa using hinside

/-- Going through nodes notes what the walk over them notes. -/
theorem visitAll_agrees : ∀ (ns : List Node) {c : ReferenceChecker} {around : List Scope}
    {next : Nat} {ds : List Naming} {rs : List Mention}, c.Agrees scopes around next ds rs →
    (c.visitAll ns).Agrees scopes around (next + scopes.openings ns)
      (ds ++ (Sighting.surveyAll scopes around next ns).filterMap Sighting.naming?)
      (rs ++ (Sighting.surveyAll scopes around next ns).filterMap Sighting.mention?)
  | [], c, around, next, ds, rs, h => by
    simpa [visitAll, Sighting.surveyAll, Scopes.openings] using h
  | n :: ns, c, around, next, ds, rs, h => by
    have hrest := visitAll_agrees ns (visit_agrees n h)
    rw [Nat.add_assoc, ← scopes.openings_cons] at hrest
    simpa [visitAll, Sighting.surveyAll, List.append_assoc] using hrest

end

end

/-! ### The whole document -/

/-- A checker that opens a document has noted nothing. -/
theorem opened_agrees (scopes : Scopes) :
    ({ scopes, resolver := Resolver.empty.push [.any] } : ReferenceChecker).Agrees scopes
      [.document] 1 [] [] where
  scopes := rfl
  document := List.mem_singleton_self _
  sound := Resolver.Sound.of_empty.push _
  blocks := rfl
  next := rfl
  defined _ _ := rfl
  waiting := rfl
  answered := ⟨[], rfl, .nil, by simp⟩
  failed := rfl
  reports := rfl

variable {c : ReferenceChecker} {scopes : Scopes} {next : Nat} {ds : List Naming}
  {rs : List Mention}

/-- A reference that still waits when the document closes is unresolved. -/
theorem Agrees.failure_report (h : c.Agrees scopes [.document] next ds rs) {r : Mention}
    (hunmet : ¬r.Met ds) :
    (failure? (c.resolver.failure r.requirement)).map Unresolved.report = some r.unresolved := by
  have hnone := Resolver.lookup_any_eq_none_iff.mp ((h.lookup_eq_none_iff r).mpr hunmet)
  have hvisible : c.resolver.visible r.requirement.path r.requirement.id = [] :=
    List.filterMap_eq_nil_iff.mpr hnone
  simp only [Resolver.failure, failure?, hvisible, List.head?_nil, Option.map_none, Option.map_some,
    Unresolved.report]
  rfl

/-- When the document closes, what still waits fails, and everything else stays. -/
theorem Agrees.close (h : c.Agrees scopes [.document] next ds rs) :
    ∃ failed : List Unresolved,
      failed.map Unresolved.report = (rs.filter fun r => ¬r.Met ds).map Mention.unresolved ∧
        c.settle c.resolver.pop
          = { scopes, resolved := c.resolved, failed, reports := Naming.repeats ds } := by
  have hpop : c.resolver.pop = (.empty, c.resolver.waiting.map c.resolver.failure) := by
    simp only [Resolver.pop, h.blocks, List.map_cons, List.map_nil]
  have hanswers : (c.resolver.waiting.map c.resolver.failure).filterMap answer? = [] := by
    rw [List.filterMap_map]
    exact List.filterMap_eq_nil_iff.mpr fun _ _ => rfl
  refine ⟨(c.resolver.waiting.map c.resolver.failure).filterMap failure?, ?_, ?_⟩
  · rw [h.waiting, List.map_map, List.filterMap_map, List.map_filterMap, ← List.filterMap_eq_map]
    refine List.filterMap_congr fun r hr => ?_
    have hunmet : ¬r.Met ds := by simpa using (List.mem_filter.mp hr).2
    exact h.failure_report hunmet
  · rw [settle_eq, hpop, hanswers, h.failed, h.scopes, h.reports]
    simp

/-- Checking a document answers the references that are met and reports the others, and the checker
    is as new after it. -/
theorem check_eq (scopes : Scopes) (ns : List Node) :
    ∃ resolved, Mention.Answered resolved (namings scopes ns) (mentions scopes ns) ∧
      ReferenceChecker.check { scopes } ns = ({ scopes }, resolved,
        Naming.repeats (namings scopes ns) ++
          ((mentions scopes ns).filter fun r => ¬r.Met (namings scopes ns)).map
            Mention.unresolved) := by
  let opened : ReferenceChecker := { scopes, resolver := Resolver.empty.push [.any] }
  have h : (opened.visitAll ns).Agrees scopes [.document] _ (namings scopes ns)
      (mentions scopes ns) := visitAll_agrees ns (opened_agrees scopes)
  obtain ⟨failed, hfailed, hclose⟩ := h.close
  refine ⟨(opened.visitAll ns).resolved, h.answered, ?_⟩
  show (_, ((opened.visitAll ns).settle (opened.visitAll ns).resolver.pop).resolved,
    ((opened.visitAll ns).settle (opened.visitAll ns).resolver.pop).reports ++
      ((opened.visitAll ns).settle (opened.visitAll ns).resolver.pop).failed.map
        Unresolved.report) = _
  rw [hclose, hfailed]

/-- A checker is as new after a document, so what is said of one document holds of each in turn. -/
theorem check_renews (scopes : Scopes) (ns : List Node) :
    (ReferenceChecker.check { scopes } ns).1 = { scopes } := by
  obtain ⟨resolved, -, hcheck⟩ := check_eq scopes ns
  rw [hcheck]

end ReferenceChecker

/-- **Checking references is complete and conservative.** The references of a document are the atoms
    `#id` anywhere in its trees. Those that a form meets are answered, each once, by a form that
    meets it and is the first of its identifier where it lands; the others are reported, each once
    and in document order, after the forms that are not the first. There are no other reports. -/
theorem checkReferences_complete (scopes : Scopes) (ns : List Node) :
    (mentions scopes ns).map (fun r => (r.id, r.site))
        = (ns.flatMap Node.preorder).filterMap Node.reference? ∧
      Mention.Answered (checkReferences scopes ns).1 (namings scopes ns) (mentions scopes ns) ∧
      (checkReferences scopes ns).2
        = Naming.repeats (namings scopes ns) ++
          ((mentions scopes ns).filter fun r => ¬r.Met (namings scopes ns)).map
            Mention.unresolved := by
  obtain ⟨resolved, hanswered, hcheck⟩ := ReferenceChecker.check_eq scopes ns
  refine ⟨mentions_eq scopes ns, ?_, ?_⟩
  · rw [checkReferences, hcheck]
    exact hanswered
  · rw [checkReferences, hcheck]

/-- A reference before its definition and one beside it in a scope are answered. One outside of that
    scope is reported, although the scope defines its identifier. -/
theorem checkReferences_complete_scoped :
    let scopes : Scopes := [("shelf", ["box"])]
    let ns := (parse { origin := "doc" } "#b (shelf (box name: a) #a) #a (box name: b)").1
    ((checkReferences scopes ns).1.map Resolved.id).Perm ["b", "a"] ∧
      (checkReferences scopes ns).2.map Report.problem = [.unresolvedIdentifier "a"] := by
  intro scopes ns
  obtain ⟨-, hanswered, hreports⟩ := checkReferences_complete scopes ns
  constructor
  · -- the order of the answers is that of a sort, which is not evaluated
    have hmet : (((mentions scopes ns).filter fun r => r.Met (namings scopes ns)).map
        fun r => (r.id, r.site)).map Prod.fst = ["b", "a"] := by decide +kernel
    have hids := hanswered.sites_perm.map Prod.fst
    rw [hmet, List.map_map] at hids
    exact hids
  · rw [hreports]
    decide +kernel

end Formwork
