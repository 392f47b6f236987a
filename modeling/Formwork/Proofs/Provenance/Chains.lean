import Formwork.Proofs.Provenance.Expanding
import Formwork.Proofs.Provenance.Including

namespace Formwork

/-!
# Real chains

A chain of positions is *real* when it starts in the root document, crosses into another text at
each position but the last, and each position is a true mark of the text that it names. Scanning
makes real chains, and crossing from one real chain into another keeps them real; so everything in a
processed document, and everything in the reports about it, has a real chain.

* `Location.Real.via` — crossing keeps chains real.
* `Includer.carries` — so does replacing include forms.
* `Options.expandWithIncludes_real` — the chains of a whole document.
-/

/-! ### Positions and chains -/

/-- Whether a position is a true mark of the text that it names. -/
def Position.IsOf (texts : String → Option String) (p : Position) : Prop :=
  ∃ text, texts p.origin = some text ∧ p.mark.IsOf text

namespace Location

/-- Whether a chain starts in the text `root`, crosses at each position but the last, and consists of
    true marks. -/
structure Real (texts : String → Option String) (root : String) (l : Location) : Prop where
  crosses : ∃ before last, l.chain = before ++ [last] ∧ last.hop = .normal ∧
    ∀ p ∈ before, p.hop ≠ .normal
  outermost : l.outermost?.map Position.origin = some root
  positions : ∀ p ∈ l.chain, p.IsOf texts

variable {texts : String → Option String} {root : String}

/-- A mark in the root document is a real location. -/
theorem real_ofMark {text : String} (htext : texts root = some text) {m : Mark} (hm : m.IsOf text) :
    (ofMark root m).Real texts root where
  crosses := ⟨[], { origin := root, mark := m }, rfl, rfl, by simp⟩
  outermost := rfl
  positions := by
    intro p hp
    obtain rfl := List.mem_singleton.mp hp
    exact ⟨text, htext, hm⟩

/-- Only the last position of a chain gets the hop. -/
theorem relink_append (hop : Hop) (before : List Position) (last : Position) :
    relink hop (before ++ [last]) = before ++ [{ last with hop }] := by
  induction before with
  | nil => rfl
  | cons p before ih =>
    cases before with
    | nil => rfl
    | cons q before => exact congrArg (p :: ·) ih

/-- **Crossing keeps chains real.** The chain goes on where the first one ended, which then is no
    longer the last position. -/
theorem Real.via {l inner : Location} {other : String} (h : l.Real texts root)
    (hinner : inner.Real texts other) {hop : Hop} (hhop : hop ≠ .normal) :
    (l.via hop inner).Real texts root := by
  obtain ⟨before, last, hchain, -, hbefore⟩ := h.crosses
  obtain ⟨before', last', hchain', hlast', hbefore'⟩ := hinner.crosses
  -- the last position of the outer chain gets the hop, and the inner chain is put behind it
  have hvia : (l.via hop inner).chain = (before ++ [{ last with hop }] ++ before') ++ [last'] := by
    rw [chain_via, hchain, relink_append, hchain', List.append_assoc, List.append_assoc,
      List.append_assoc]
  have hpositions := h.positions
  rw [hchain, List.forall_mem_append, List.forall_mem_singleton] at hpositions
  have hpositions' := hinner.positions
  rw [hchain', List.forall_mem_append, List.forall_mem_singleton] at hpositions'
  refine ⟨⟨_, last', hvia, hlast', ?_⟩, ?_, ?_⟩
  · rw [List.forall_mem_append, List.forall_mem_append, List.forall_mem_singleton]
    exact ⟨⟨hbefore, hhop⟩, hbefore'⟩
  · have houtermost := h.outermost
    rw [outermost?, hchain] at houtermost
    rw [outermost?, hvia]
    -- the outermost position is the first one, which a relinked chain still starts with
    cases before with
    | nil => exact houtermost
    | cons p before => exact houtermost
  · rw [hvia, List.forall_mem_append, List.forall_mem_append, List.forall_mem_append,
      List.forall_mem_singleton, List.forall_mem_singleton]
    exact ⟨⟨⟨hpositions.1, hpositions.2⟩, hpositions'.1⟩, hpositions'.2⟩

/-- What never stood in any text is not in a real chain. -/
theorem Real.not_nowhere {l : Location} (h : l.Real texts root) :
    ∀ p ∈ l.chain, p ∉ nowhere.chain := by
  intro p hp hnowhere
  obtain rfl := List.mem_singleton.mp hnowhere
  obtain ⟨text, -, hmark⟩ := h.positions _ hp
  exact hmark.line_ne_zero rfl

/-- Locations stay real as they are moved to a call. -/
theorem crossesTemplates_real : CrossesTemplates (Real texts root) :=
  fun _ _ hl hm => hl.via hm (by simp)

end Location

/-! ### Documents -/

/-- The texts that a root document and the documents it may include are named by. -/
def Documents.texts (docs : Documents) (id text : String) (origin : String) : Option String :=
  if origin = id then some text else (docs.fetch origin).toOption

namespace Includer

variable {docs : Documents} {id text : String}

/-- What holds of an includer whose root document is `id`: it never includes that, and everything it
    has reported has a real chain. -/
def Real (docs : Documents) (id text : String) (s : Includer) : Prop :=
  s.root = some id ∧ Report.LocatedAll (Location.Real (docs.texts id text) id) s.reports

/-- **Replacing include forms keeps chains real.** The chain of what an included document says starts
    at the form that includes it. -/
theorem carries (docs : Documents) (id text : String) :
    (cutter docs).Carries (Location.Real (docs.texts id text) id) (Real docs id text) := by
  let Q : Standing := .uniform (Location.Real (docs.texts id text) id)
  have hcrosses : Q.CrossesIncludes docs id := by
    intro form id' text' hform hother hfetch
    have htext : docs.texts id text id' = some text' := by
      rw [Documents.texts, if_neg hother, hfetch]
      rfl
    exact Standing.covers_uniform fun m hm =>
      Location.Real.via hform (Location.real_ofMark htext hm) (by simp)
  have hreal : Real docs id text = Stands id Q := by
    funext s
    rw [Real, Stands, Report.standsAll_uniform]
  rw [Cutter.Carries, hreal]
  exact upholds hcrosses

end Includer

/-! ### Whole documents -/

/-- **Chains are real.** In a processed document and in the reports about it, each location, of a node
    or of the end of a group, is a chain that starts in the root document, goes on at each position
    but the last, and has only true marks of the texts that it names. -/
theorem Options.expandWithIncludes_real (o : Options) (docs : Documents) (levels : Nat)
    (id text : String) {p : Processed}
    (h : o.expandWithIncludes docs levels id text = some p) :
    let Fine := fun l : Location =>
      l.Real (docs.texts id text) id ∧ ∀ q ∈ l.chain, q ∉ Location.nowhere.chain
    Node.LocatedAll Fine p.nodes ∧ Report.LocatedAll Fine p.reports := by
  intro Fine
  have hfine : ∀ l : Location, l.Real (docs.texts id text) id → Fine l :=
    fun l hl => ⟨hl, hl.not_nowhere⟩
  obtain ⟨loaded, hloaded, rfl⟩ := Option.map_eq_some_iff.mp h
  rw [includeSource_eq_rewrite, Option.map_eq_some_iff] at hloaded
  obtain ⟨r, hr, rfl⟩ := hloaded
  have htext : docs.texts id text id = some text := if_pos rfl
  let src : Source := { origin := id, limit := o.maxNestingDepth }
  -- the scan of the root document sets the locations, and both passes carry them through
  obtain ⟨hnodes, hreports⟩ : Node.LocatedAll (Location.Real (docs.texts id text) id)
        (Formwork.parse src text).1 ∧
      Report.LocatedAll (Location.Real (docs.texts id text) id) (Formwork.parse src text).2 :=
    located_parse fun m hm => Location.real_ofMark htext hm
  obtain ⟨⟨-, hincluded⟩, hns⟩ := (Includer.carries docs id text).rewrite levels _ _ _
    ⟨rfl, hreports⟩ ((Node.locatedAll_plainAll _).mpr hnodes) hr
  obtain ⟨hms, hexpanded⟩ := o.located_expandNodes Location.crossesTemplates_real hns
  exact ⟨hms.mono hfine, (hincluded.append hexpanded).mono hfine⟩

/-- A document that includes a template and calls it, with a group that is never closed: some chain
    crosses an include and a call, and all chains are real. -/
theorem Options.expandWithIncludes_real_mixed :
    let docs := Documents.ofList [("lib", "(template pair (@1)\n  [@1 (unique-name)])")]
    let text := "; parts\n(include lib) (list (pair a) (pair"
    let Fine := fun l : Location =>
      l.Real (docs.texts "main" text) "main" ∧ ∀ q ∈ l.chain, q ∉ Location.nowhere.chain
    ∃ p, ({} : Options).expandWithIncludes docs 1 "main" text = some p ∧
      (p.nodes.flatMap Node.preorder).any (fun n => n.location.depth = 3) ∧ p.reports.length = 2 ∧
      Node.LocatedAll Fine p.nodes ∧ Report.LocatedAll Fine p.reports := by
  intro docs text Fine
  have hrun : ((({} : Options).expandWithIncludes docs 1 "main" text).map fun p =>
      ((p.nodes.flatMap Node.preorder).any fun n => n.location.depth = 3, p.reports.length))
        = some (true, 2) := by decide +kernel
  obtain ⟨p, hp, hshape⟩ := Option.map_eq_some_iff.mp hrun
  obtain ⟨hdepth, hreports⟩ := Prod.mk.inj hshape
  exact ⟨p, hp, hdepth, hreports,
    expandWithIncludes_real {} docs 1 "main" text hp⟩

end Formwork
