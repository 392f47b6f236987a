import Formwork.Proofs.Provenance.Expanding
import Formwork.Proofs.Provenance.Marks

namespace Formwork

/-!
# Where included documents stand

What an included document says stands behind the form that includes it. A standing that goes from
such a form to whatever the document may say is carried through replacing include forms.

* `Standing.CrossesIncludes` — what included documents need.
* `Includer.upholds` — replacing include forms carries the standing.
* `Options.stands_expandWithIncludes` — so does processing a whole document.
-/

/-- Whether a standing goes from the forms that include documents to what the documents say. The root
    document, which is `id`, is never included. -/
def Standing.CrossesIncludes (docs : Documents) (id : String) (Q : Standing) : Prop :=
  ∀ {form : Location} {id' text' : String}, Q.group form → id' ≠ id → docs.fetch id' = .ok text' →
    Q.Covers (fun m => form.via .inclusion (.ofMark id' m)) text'

namespace Includer

variable {Q : Standing} {docs : Documents} {id : String}

/-- What holds of an includer whose root document is `id`: it never includes that, and everything it
    has reported stands where it may. -/
def Stands (id : String) (Q : Standing) (s : Includer) : Prop :=
  s.root = some id ∧ Report.StandsAll Q s.reports

/-- What takes the place of a form that includes a document, and what is reported of it. -/
theorem Stands.spliced (hQ : Q.CrossesIncludes docs id) {s : Includer} (h : s.Stands id Q)
    {form : Node} (hform : Q.group form.location) {id' text' : String}
    (hactive : s.isActive id' = false) (hfetch : docs.fetch id' = .ok text') (modulesOnly : Bool) :
    Node.StandsAll Q (s.spliced form id' text' modulesOnly).1 ∧
      Report.StandsAll Q (s.spliced form id' text' modulesOnly).2 := by
  have hother : id' ≠ id := by
    rintro rfl
    simp [isActive, h.1] at hactive
  let src : Source := { origin := id', base := some form.location, limit := s.limit }
  have hcovers : Q.Covers src.locate text' := hQ hform hother hfetch
  obtain ⟨hnodes, hreports⟩ := stands_parse hcovers
  refine ⟨?_, hreports⟩
  show Node.StandsAll Q (if modulesOnly then _ else _)
  split
  · rw [Node.standsAll_iff] at hnodes ⊢
    exact fun n hn => hnodes n (List.mem_of_mem_filter hn)
  · exact hnodes

/-- **Replacing include forms carries a standing** that goes into the documents they include. -/
theorem upholds (hQ : Q.CrossesIncludes docs id) : (cutter docs).Upholds Q (Stands id Q) where
  cut s head hs := hs
  pasted s hs := hs
  paste s g hs hgroup hg := by
    obtain ⟨_, reports, habout, hp⟩ | ⟨form, hform, -, -, hp⟩ |
      ⟨form, id', text', modulesOnly, hform, -, hactive, hfetch, hp⟩ :=
        paste_cases docs s (Builder.holding g)
    · -- dropped, with reports about the form
      rw [hp]
      refine ⟨⟨hs.1, hs.2.append fun r hr => ?_⟩, fun es hes => by cases hes⟩
      obtain ⟨form, problem, hform, rfl⟩ := habout r hr
      obtain rfl : g = form := by simpa using hform
      exact Report.stands_atNode hg problem
    · -- the contents of a `no-include` form stand where they stood
      rw [hp]
      obtain rfl : g = form := by simpa using hform
      refine ⟨hs, fun es hes => ?_⟩
      cases hes
      rw [Builder.build_eventsAll, Node.standsAll_plainAll]
      exact Node.standsAll_iff.mpr hg.tail
    · rw [hp]
      obtain rfl : g = form := by simpa using hform
      obtain ⟨hnodes, hreports⟩ := hs.spliced hQ (hg.group hgroup) hactive hfetch modulesOnly
      refine ⟨⟨hs.1, hs.2.append hreports⟩, fun es hes => ?_⟩
      cases hes
      rw [Builder.build_eventsAll, Node.standsAll_plainAll]
      exact hnodes

end Includer

/-! ### Whole documents -/

/-- **Everything in a processed document stands where it may**, and so does everything reported, if
    what the root document may say does, and the standing goes into included documents and bodies. -/
theorem Options.stands_expandWithIncludes {Q : Standing} (o : Options) {docs : Documents}
    {levels : Nat} {id text : String} (hroot : Q.Covers (.ofMark id) text)
    (hincludes : Q.CrossesIncludes docs id) (htemplates : Q.CrossesTemplates)
    (hmade : o.builtinRules = true → ∀ v l, Q.group l → Q.atom v l) {p : Processed}
    (h : o.expandWithIncludes docs levels id text = some p) :
    Node.StandsAll Q p.nodes ∧ Report.StandsAll Q p.reports := by
  obtain ⟨loaded, hloaded, rfl⟩ := Option.map_eq_some_iff.mp h
  rw [includeSource_eq_rewrite, Option.map_eq_some_iff] at hloaded
  obtain ⟨r, hr, rfl⟩ := hloaded
  let src : Source := { origin := id, limit := o.maxNestingDepth }
  have hcovers : Q.Covers src.locate text := hroot
  obtain ⟨hnodes, hreports⟩ := stands_parse hcovers
  obtain ⟨⟨-, hincluded⟩, hns⟩ := (Includer.upholds hincludes).rewrite levels _ _ _
    ⟨rfl, hreports⟩ ((Node.standsAll_plainAll _).mpr hnodes) hr
  obtain ⟨hms, hexpanded⟩ := o.stands_expandNodes htemplates hmade hns
  exact ⟨hms, hincluded.append hexpanded⟩

end Formwork
