import Formwork.Proofs.Likeness.Templates
import Formwork.Proofs.Resolver.Sight
import Formwork.References

namespace Formwork

/-!
# References that are alike

Checking the references of documents that are alike meets the same references at sites that are
alike, and reports alike.

* `Resolver.Twin` — two resolvers that have come to know alike, with `Resolver.Twin.resolve`,
  `Resolver.Twin.define` and `Resolver.Twin.pop`.
* `ReferenceChecker.Twin.visitAll` — going through a document.
* `like_checkReferences` — checking it.
-/

variable {L : Likeness}

/-- Sorting goes along with a relation that the order respects. -/
theorem rel_mergeSort {α β : Type} {R : α → β → Prop} {le : α → α → Bool} {le' : β → β → Bool}
    (hle : ∀ a b a' b', R a b → R a' b' → le a a' = le' b b') {as : List α} {bs : List β}
    (h : List.Forall₂ R as bs) : List.Forall₂ R (as.mergeSort le) (bs.mergeSort le') := by
  -- both lists are projections of the list of their pairs, and sorting goes along with projecting
  let pairs := as.zip bs
  have hpairs : ∀ p ∈ pairs, R p.1 p.2 := fun p hp => List.forall₂_zip h hp
  have hfst : (pairs.mergeSort fun p q => le p.1 q.1).map Prod.fst = as.mergeSort le := by
    rw [List.map_mergeSort (s := le) fun _ _ _ _ => rfl, List.map_fst_zip (Nat.le_of_eq h.length_eq)]
  have hsnd : (pairs.mergeSort fun p q => le p.1 q.1).map Prod.snd = bs.mergeSort le' := by
    rw [List.map_mergeSort (s := le') fun p hp q hq => hle _ _ _ _ (hpairs p hp) (hpairs q hq),
      List.map_snd_zip (Nat.le_of_eq h.length_eq.symm)]
  rw [← hfst, ← hsnd, List.forall₂_map_left_iff, List.forall₂_map_right_iff, List.forall₂_same]
  exact fun p hp => hpairs p (List.mem_mergeSort.mp hp)

/-! ### Resolving -/

section

variable {κ ν τ : Type} {V : ν → ν → Prop} {T : τ → τ → Prop}

/-- Whether two definitions are alike. -/
structure Definition.Twin (L : Likeness) (V : ν → ν → Prop) (d e : Definition κ ν) : Prop where
  block : e.block = d.block
  id : e.id = d.id
  kind : e.kind = d.kind
  value : V d.value e.value
  origin : L.Twin d.origin e.origin

/-- Whether two requirements are alike. -/
structure Requirement.Twin (L : Likeness) (T : τ → τ → Prop) (p q : Requirement κ τ) : Prop where
  path : q.path = p.path
  id : q.id = p.id
  kind : q.kind = p.kind
  origin : L.Twin p.origin q.origin
  tag : T p.tag q.tag

/-- Whether two failures are alike. -/
structure Unresolved.Twin (L : Likeness) (u v : Unresolved) : Prop where
  id : v.id = u.id
  origin : L.Twin u.origin v.origin
  expected : v.expected = u.expected
  found : v.found = u.found

/-- Failures that are alike are reported alike. -/
theorem Unresolved.Twin.report (hL : ∀ p, L.problem p p) {u v : Unresolved} (h : u.Twin L v) :
    u.report.Like L v.report := by
  unfold Unresolved.report
  rw [h.found, h.id, h.expected]
  split <;> exact Report.like_atNode h.origin (hL _)

/-- Whether two results are alike. -/
inductive Outcome.ResultTwin (L : Likeness) (V : ν → ν → Prop) :
    Except Unresolved ν → Except Unresolved ν → Prop where
  | ok {x y : ν} (h : V x y) : ResultTwin L V (.ok x) (.ok y)
  | error {u v : Unresolved} (h : u.Twin L v) : ResultTwin L V (.error u) (.error v)

/-- Whether two outcomes are alike. -/
structure Outcome.Twin (L : Likeness) (V : ν → ν → Prop) (T : τ → τ → Prop) (o p : Outcome ν τ) :
    Prop where
  tag : T o.tag p.tag
  result : Outcome.ResultTwin L V o.result p.result

namespace Resolver

/-- Whether two resolvers have come to know alike. -/
structure Twin (L : Likeness) (V : ν → ν → Prop) (T : τ → τ → Prop) (r q : Resolver κ ν τ) :
    Prop where
  blocks : q.blocks = r.blocks
  next : q.next = r.next
  definitions : List.Forall₂ (Definition.Twin L V) r.definitions q.definitions
  waiting : List.Forall₂ (Requirement.Twin L T) r.waiting q.waiting

/-- Whether two steps lead to resolvers and outcomes that are alike. -/
def StepTwin (L : Likeness) (V : ν → ν → Prop) (T : τ → τ → Prop)
    (a b : Resolver κ ν τ × List (Outcome ν τ)) : Prop :=
  a.1.Twin L V T b.1 ∧ List.Forall₂ (Outcome.Twin L V T) a.2 b.2

namespace Twin

variable {r q : Resolver κ ν τ}

/-- The same blocks are open, by number. -/
theorem path (h : r.Twin L V T q) : q.path = r.path := by
  rw [Resolver.path, Resolver.path, h.blocks]

/-- An identifier is defined in a block of both resolvers or of neither, and the definitions are
    alike. -/
theorem definition? (h : r.Twin L V T q) (id : String) (block : Nat) :
    Option.Rel (Definition.Twin L V) (r.definition? id block) (q.definition? id block) := by
  have hdefinitions := h.definitions
  unfold Resolver.definition?
  generalize r.definitions = ds at hdefinitions ⊢
  generalize q.definitions = es at hdefinitions ⊢
  induction hdefinitions with
  | nil => exact .none
  | cons hd _ ih =>
    rw [List.find?_cons, List.find?_cons, hd.block, hd.id]
    split
    · exact .some hd
    · exact ih

/-- What is visible along a path is alike, definition by definition. -/
theorem visible (h : r.Twin L V T q) (path : List Nat) (id : String) :
    List.Forall₂ (Definition.Twin L V) (r.visible path id) (q.visible path id) := by
  refine List.rel_filterMap (R := Eq) ?_ (List.forall₂_eq_eq_eq ▸ rfl)
  rintro block _ rfl
  exact h.definition? id block

/-- Both resolvers open a block of the same number. -/
theorem push (h : r.Twin L V T q) (kinds : List κ) : (r.push kinds).Twin L V T (q.push kinds) where
  blocks := by rw [Resolver.push, Resolver.push, h.blocks, h.next]
  next := congrArg Nat.succ h.next
  definitions := h.definitions
  waiting := h.waiting

/-- Both resolvers make a definition. -/
theorem add (h : r.Twin L V T q) {d e : Definition κ ν} (hd : d.Twin L V e) :
    (r.add d).Twin L V T (q.add e) :=
  ⟨h.blocks, h.next, List.rel_append h.definitions (.cons hd .nil), h.waiting⟩

variable [Kind κ]

/-- What is nearest along a path is alike: whether a definition is of the kind that is wanted does
    not depend on what may differ. -/
theorem lookup (h : r.Twin L V T q) (path : List Nat) (id : String) (kind : κ) :
    Option.Rel V (r.lookup path id kind) (q.lookup path id kind) := by
  have hvisible := h.visible path id
  unfold Resolver.lookup
  generalize r.visible path id = ds at hvisible ⊢
  generalize q.visible path id = es at hvisible ⊢
  induction hvisible with
  | nil => exact .none
  | cons hd _ ih =>
    rw [List.find?_cons, List.find?_cons, hd.kind]
    split
    · exact .some hd.value
    · exact ih

variable {p p' : Requirement κ τ}

/-- A requirement that fails fails alike, with the same identifier and kinds. -/
theorem failure (h : r.Twin L V T q) (hp : p.Twin L T p') :
    Outcome.Twin L V T (r.failure p) (q.failure p') where
  tag := hp.tag
  result := by
    have hvisible := h.visible p.path p.id
    refine .error ⟨hp.id, hp.origin, congrArg Kind.text hp.kind, ?_⟩
    show ((q.visible p'.path p'.id).head?.map _) = ((r.visible p.path p.id).head?.map _)
    rw [hp.path, hp.id]
    generalize r.visible p.path p.id = ds at hvisible ⊢
    generalize q.visible p.path p.id = es at hvisible ⊢
    cases hvisible with
    | nil => rfl
    | cons hd _ => exact congrArg (fun kind => some (Kind.text kind)) hd.kind

/-- Closing the innermost blocks. -/
theorem pop (h : r.Twin L V T q) : StepTwin L V T r.pop q.pop := by
  unfold Resolver.pop
  rw [h.blocks]
  split
  · exact ⟨h, .nil⟩
  · exact ⟨⟨rfl, rfl, .nil, .nil⟩, List.rel_map (fun _ _ hp => h.failure hp) h.waiting⟩
  · exact ⟨{ h with blocks := rfl }, .nil⟩

/-- Requiring an identifier. -/
theorem resolve (h : r.Twin L V T q) {n m : Node} (hn : L.Twin n m) (id : String) (kind : κ)
    {t t' : τ} (ht : T t t') :
    StepTwin L V T (r.resolve n id kind t) (q.resolve m id kind t') := by
  have hfind : Option.Rel V (r.find? id kind) (q.find? id kind) := by
    rw [Resolver.find?, Resolver.find?, h.path]
    exact h.lookup r.path id kind
  have hrequirement : Requirement.Twin L T { path := r.path, id, kind, origin := n, tag := t }
      { path := q.path, id, kind, origin := m, tag := t' } := ⟨h.path, rfl, rfl, hn, ht⟩
  unfold Resolver.resolve
  generalize r.find? id kind = x at hfind ⊢
  generalize q.find? id kind = y at hfind ⊢
  -- both resolvers find a value now, or neither does; then the requirement fails in both if no
  -- block is open, and waits in both if one is
  cases hfind with
  | some hvalue => exact ⟨h, .cons ⟨ht, .ok hvalue⟩ .nil⟩
  | none =>
    simp only [h.blocks]
    split
    · exact ⟨h, .cons (h.failure hrequirement) .nil⟩
    · have hwaiting := List.rel_append h.waiting (.cons hrequirement .nil)
      exact ⟨⟨rfl, h.next, h.definitions, hwaiting⟩, .nil⟩

/-- A requirement is met by the newest definition in both resolvers or in neither. -/
theorem met? (h : r.Twin L V T q) (id : String) (block : Nat) (hp : p.Twin L T p') :
    Option.Rel (Outcome.Twin L V T) (r.met? id block p) (q.met? id block p') := by
  have hlookup := h.lookup p.path p.id p.kind
  unfold Resolver.met?
  rw [hp.id, hp.path, hp.kind]
  split
  · generalize r.lookup p.path p.id p.kind = x at hlookup ⊢
    generalize q.lookup p.path p.id p.kind = y at hlookup ⊢
    cases hlookup with
    | none => exact .none
    | some hvalue => exact .some ⟨hp.tag, .ok hvalue⟩
  · exact .none

/-- Deciding what a definition meets. -/
theorem wake (h : r.Twin L V T q) (id : String) (block : Nat) :
    StepTwin L V T (r.wake id block) (q.wake id block) := by
  constructor
  · refine { h with waiting := List.rel_filter ?_ h.waiting }
    intro p p' hp
    have hmet := h.met? id block hp
    show (r.met? id block p).isNone = true ↔ (q.met? id block p').isNone = true
    generalize r.met? id block p = x at hmet ⊢
    generalize q.met? id block p' = y at hmet ⊢
    cases hmet <;> exact Iff.rfl
  · -- the order of what waits is that of the blocks, which are the same
    refine List.rel_filterMap (fun p p' hp => h.met? id block hp) (rel_mergeSort ?_ h.waiting)
    intro a b a' b' hab hab'
    rw [Requirement.block, Requirement.block, Requirement.block, Requirement.block, hab.path,
      hab'.path]

/-- Defining an identifier, or reporting why it is not defined. -/
theorem define (hL : ∀ p, L.problem p p) (h : r.Twin L V T q) {n m : Node} (hn : L.Twin n m)
    (id : String) (kind : κ) {x y : ν} (hxy : V x y) :
    L.Agree (StepTwin L V T) (r.define n id kind x) (q.define m id kind y) := by
  have haccepting : q.accepting? kind = r.accepting? kind := by
    rw [Resolver.accepting?, Resolver.accepting?, h.blocks]
  unfold Resolver.define
  rw [haccepting]
  split
  · exact .error (Report.like_atNode hn (hL _))
  case h_2 block _ =>
    have hdefinition := h.definition? id block.number
    generalize r.definition? id block.number = d at hdefinition ⊢
    generalize q.definition? id block.number = e at hdefinition ⊢
    -- either both have a definition there already, and report it with the new one, or both make one
    -- and wake what waits
    cases hdefinition with
    | some hd => exact .error ⟨hL _, .cons hn.location (.cons hd.origin.location .nil)⟩
    | none =>
      have hd : Definition.Twin L V { block := block.number, id, kind, value := x, origin := n }
          { block := block.number, id, kind, value := y, origin := m } := ⟨rfl, rfl, rfl, hxy, hn⟩
      exact .ok ((h.add hd).wake id block.number)

end Twin

end Resolver

end

/-! ### What forms define -/

/-- The first `name:` among nodes that are alike. -/
theorem nameAmong_eq {ns ms : List Node} (h : List.Forall₂ L.Twin ns ms) :
    nameAmong ms = nameAmong ns := by
  induction h with
  | nil => rfl
  | @cons n m ns ms hn hns ih =>
    rw [nameAmong.eq_def (m :: ms), nameAmong.eq_def (n :: ns)]
    simp only [hn.keyword?, ih]
    -- after the keyword `name:` stands a value or nothing
    split
    · cases hns with
      | nil => rfl
      | cons hvalue _ =>
        have hkeyword := hvalue.keyword?
        cases hvalue with
        | group => rfl
        | @atom a b hvalue _ _ =>
          have hsame : b.keyword? = a.keyword? := hkeyword
          simp only [hsame, hvalue]
    · rfl

/-- Twins define the same identifier, if any. -/
theorem Likeness.Twin.definedName? {n m : Node} (h : L.Twin n m) :
    Formwork.definedName? m = Formwork.definedName? n :=
  nameAmong_eq h.tail

/-! ### Checking -/

/-- Whether two references are met alike. A reference is no group. -/
structure Resolved.Twin (L : Likeness) (r q : Resolved) : Prop where
  id : q.id = r.id
  isGroup : r.site.isGroup = false
  site : L.Twin r.site q.site
  target : L.Twin r.target q.target

namespace ReferenceChecker

/-- Whether two requirements are of the same identifier, at sites that are alike. -/
def TagTwin (L : Likeness) (a b : String × Node) : Prop :=
  b.1 = a.1 ∧ a.2.isGroup = false ∧ L.Twin a.2 b.2

/-- Whether two checkers have come to know, to meet and to report alike. -/
structure Twin (L : Likeness) (c d : ReferenceChecker) : Prop where
  scopes : d.scopes = c.scopes
  resolver : c.resolver.Twin L L.Twin (TagTwin L) d.resolver
  resolved : List.Forall₂ (Resolved.Twin L) c.resolved d.resolved
  failed : List.Forall₂ (Unresolved.Twin L) c.failed d.failed
  reports : Report.LikeAll L c.reports d.reports

namespace Twin

variable {c d : ReferenceChecker}

/-- Going on with steps that are alike. -/
theorem settle (h : c.Twin L d) {a b : Resolver ReferenceKind Node (String × Node) ×
    List (Outcome Node (String × Node))} (hab : Resolver.StepTwin L L.Twin (TagTwin L) a b) :
    (c.settle a).Twin L (d.settle b) := by
  obtain ⟨hresolver, houtcomes⟩ := hab
  have hstart : Twin L { c with resolver := a.1 } { d with resolver := b.1 } :=
    { h with resolver := hresolver }
  -- one outcome after another is kept, starting from checkers with the new resolvers
  unfold ReferenceChecker.settle
  generalize ({ c with resolver := a.1 } : ReferenceChecker) = c at hstart ⊢
  generalize ({ d with resolver := b.1 } : ReferenceChecker) = d at hstart ⊢
  generalize a.2 = os at houtcomes ⊢
  generalize b.2 = ps at houtcomes ⊢
  induction houtcomes generalizing c d with
  | nil => exact hstart
  | @cons o p os ps hop _ ih =>
    rw [List.foldl_cons, List.foldl_cons]
    refine ih _ _ ?_
    obtain ⟨⟨hid, hatom, hsite⟩, hresult⟩ := hop
    generalize o.result = x at hresult ⊢
    generalize p.result = y at hresult ⊢
    cases hresult with
    | ok htarget =>
      exact { hstart with
        resolved := List.rel_append hstart.resolved (.cons ⟨hid, hatom, hsite, htarget⟩ .nil) }
    | error hfailed =>
      exact { hstart with failed := List.rel_append hstart.failed (.cons hfailed .nil) }

variable {n m : Node}

/-- A reference is required alike, at an atom. -/
theorem require (h : c.Twin L d) (hn : L.Twin n m) (hatom : n.isGroup = false) (id : String) :
    (c.require n id).Twin L (d.require m id) :=
  h.settle (h.resolver.resolve hn id .any ⟨rfl, hatom, hn⟩)

/-- What a form defines is defined alike, or refused for the same reason. -/
theorem define (hL : ∀ p, L.problem p p) (h : c.Twin L d) (hn : L.Twin n m) :
    (c.define n).Twin L (d.define m) := by
  unfold ReferenceChecker.define
  rw [hn.headName?, hn.definedName?]
  split
  case h_2 => exact h
  case h_1 head id _ _ =>
    have hstep := h.resolver.define hL hn id ⟨head⟩ hn
    generalize c.resolver.define n id ⟨head⟩ n = x at hstep ⊢
    generalize d.resolver.define m id ⟨head⟩ m = y at hstep ⊢
    cases hstep with
    | ok hstep => exact h.settle hstep
    | error hr => exact { h with reports := h.reports.append (.singleton hr) }

/-- A form opens a scope in both documents or in neither. -/
theorem scope? (h : c.Twin L d) (hn : L.Twin n m) : d.scope? m = c.scope? n := by
  rw [ReferenceChecker.scope?, ReferenceChecker.scope?, hn.headName?, h.scopes]

/-- The scope of a form is opened alike. -/
theorem enter (h : c.Twin L d) (hn : L.Twin n m) : (c.enter n).Twin L (d.enter m) := by
  unfold ReferenceChecker.enter
  rw [h.scope? hn]
  split
  · exact { h with resolver := h.resolver.push _ }
  · exact h

/-- It is closed alike, and what fails then fails alike. -/
theorem leave (h : c.Twin L d) (hn : L.Twin n m) : (c.leave n).Twin L (d.leave m) := by
  unfold ReferenceChecker.leave
  rw [h.scope? hn]
  split
  · exact h.settle h.resolver.pop
  · exact h

/-- **Going through documents that are alike.** The induction is on what makes them alike. -/
theorem visitAll (hL : ∀ p, L.problem p p) {ns ms : List Node} (hns : Like L ns ms)
    (h : c.Twin L d) : (c.visitAll ns).Twin L (d.visitAll ms) := by
  induction hns generalizing c d with
  | nil => exact h
  | dropped _ _ ih => exact ih h
  | comment _ _ _ _ ih => exact ih h
  | @atom a b ns ms hvalue hquoted hplace _ ih =>
    -- whether an atom is a reference depends on its value only
    have hreference : b.reference? = a.reference? := by
      rw [Atom.reference?, ← hvalue, Atom.reference?]
    rw [ReferenceChecker.visitAll, ReferenceChecker.visitAll, visit, visit, hreference]
    refine ih ?_
    split
    · exact h.require (.atom hvalue hquoted hplace) rfl _
    · exact h
  | @group e e' cs cs' l l' s s' ns ms hdelim hcs hplace hstop _ ihcs ih =>
    have hform : L.Twin (.group e cs l s) (.group e' cs' l' s') := .group hdelim hcs hplace hstop
    rw [ReferenceChecker.visitAll, ReferenceChecker.visitAll, visit, visit]
    exact ih ((ihcs ((h.define hL hform).enter hform)).leave hform)

end Twin

end ReferenceChecker

/-- **Checking the references of documents that are alike** meets the same references in the same
    order, at sites and with targets that are alike, and reports alike. -/
theorem like_checkReferences (hL : ∀ p, L.problem p p) (scopes : Scopes) {ns ms : List Node}
    (h : Like L ns ms) :
    List.Forall₂ (Resolved.Twin L) (checkReferences scopes ns).1 (checkReferences scopes ms).1 ∧
      Report.LikeAll L (checkReferences scopes ns).2 (checkReferences scopes ms).2 := by
  have hstart : ReferenceChecker.Twin L { scopes } { scopes } :=
    ⟨rfl, ⟨rfl, rfl, .nil, .nil⟩, .nil, .nil, .nil⟩
  have hopened : ReferenceChecker.Twin L { scopes, resolver := Resolver.empty.push [.any] }
      { scopes, resolver := Resolver.empty.push [.any] } :=
    { hstart with resolver := hstart.resolver.push [.any] }
  have hdone := hopened.visitAll hL h
  have hclosed := hdone.settle hdone.resolver.pop
  exact ⟨hclosed.resolved,
    hclosed.reports.append (List.rel_map (fun _ _ hu => hu.report hL) hclosed.failed)⟩

end Formwork
