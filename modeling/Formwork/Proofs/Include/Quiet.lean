import Formwork.Proofs.Cutout.Closing
import Formwork.Proofs.Include.Forms
import Formwork.Proofs.Scan.Accepts

namespace Formwork

/-!
# Cycles that are not reported

A form that names the root document, or one that is being included, is dropped. Whether that is
reported depends on what is going through when the form closes: it is not if a module include is
among it. The form itself does not count, so a module include that is the first on its way is
reported as any other include.

* `Includer.loading` — the moment at which loading a text as the root document begins.
* `Includer.Recurs` — the moments at which a form closes a cycle.
* `Includer.loading_recurs` — what happens at such a moment, and that no other moment reports that a
  document includes itself.
* `Includer.includeSource_modules_of_root` — a document that takes the modules of itself.
-/

namespace Includer

variable {docs : Documents} {s : Includer} {b : Builder} {form : Node} {e : String}

/-! ### What happens to a form -/

/-- A form that names an active document is dropped. -/
theorem paste_active (hform : b.node? = some form)
    (hhead : form.headName? ∈ [some includeWord, some modulesWord])
    (hnames : docs.identify form = .ok e) (hactive : e ∈ s.going) :
    (cutter docs).paste s b
      = (if s.filtering then s else s.report [.atNode (.recursiveInclude e) form], none) := by
  have hpaste : (cutter docs).paste s b = (cutter docs).paste s (Builder.holding form) := by
    simp only [cutter, hform, Builder.node?_holding]
  rw [hpaste, paste_form _ _ hhead, includeDocument, hnames]
  simp only [isActive_iff.mpr hactive, if_true]

/-- **Whatever is reported** when a form is handed over was reported before, or is a problem of the
    text that is included or of finding it; or the form names an active document, and no module
    include is going on. -/
theorem reports_paste {r : Report} (hr : r ∈ ((cutter docs).paste s b).1.reports) :
    r ∈ s.reports ∨ r.problem.category = .parse ∨ (∃ why, r.problem = .unresolvableInclude why) ∨
      ∃ form e, b.node? = some form ∧ form.headName? ≠ some rootOnlyWord ∧
        docs.identify form = .ok e ∧ e ∈ s.going ∧ s.filtering = false ∧
        r = .atNode (.recursiveInclude e) form := by
  -- every branch appends at most one report of its own; a document read appends those of its scan
  have happended : ∀ q, r ∈ s.reports ++ [q] → r ∈ s.reports ∨ r = q := by simp
  simp only [cutter] at hr
  split at hr
  case h_2 => exact .inl hr
  case h_1 form hform =>
    unfold replace at hr
    split at hr
    case h_1 => exact .inl hr
    case h_2 head hhead =>
      split at hr
      case isTrue => split at hr <;> exact .inl hr
      case isFalse hroot =>
        have hother : form.headName? ≠ some rootOnlyWord := by
          rw [hhead]
          simpa using hroot
        unfold includeDocument at hr
        split at hr
        case h_1 why _ =>
          obtain hr | rfl := happended _ hr
          · exact .inl hr
          · exact .inr (.inr (.inl ⟨_, rfl⟩))
        case h_2 e hnames =>
          split at hr
          case isTrue hactive =>
            split at hr
            · exact .inl hr
            · next hfiltering =>
              obtain hr | rfl := happended _ hr
              · exact .inl hr
              · exact .inr (.inr (.inr ⟨form, e, hform, hother, hnames, isActive_iff.mp hactive,
                  by simpa using hfiltering, rfl⟩))
          case isFalse =>
            split at hr
            case h_1 =>
              obtain hr | rfl := happended _ hr
              · exact .inl hr
              · exact .inr (.inr (.inl ⟨_, rfl⟩))
            case h_2 text _ =>
              obtain hr | hr := List.mem_append.mp hr
              · exact .inl hr
              · exact .inr (.inl (category_parse _ text r hr))

/-! ### Loading a document -/

/-- The moment at which loading a text as the root document begins. -/
def loading (id text : String) (limit : Nat) : Moment Includer Builder :=
  .start { root := some id, limit, reports := (parse { origin := id, limit } text).2 }
    (Node.eventsAll (parse { origin := id, limit } text).1)

variable {id text : String} {limit : Nat} {m : Moment Includer Builder}

/-- What is loaded is there at the last moment. -/
theorem exists_last_moment {levels : Nat} {l : Loaded}
    (h : includeSource docs levels id text limit = some l) :
    ∃ last, Moment.Leads (cutter docs) (loading id text limit) last ∧ last.tasks = [] ∧
      l.reports = last.cutout.state.reports := by
  obtain ⟨r, hr, rfl⟩ := Option.map_eq_some_iff.mp h
  obtain ⟨c, hc, rfl⟩ := Option.map_eq_some_iff.mp hr
  have hleads := Cutout.feed_leads hc []
  rw [List.append_nil] at hleads
  exact ⟨⟨c, []⟩, hleads, rfl, rfl⟩

/-- The root document stays the same. -/
theorem keeps_root (docs : Documents) (root : Option String) :
    (cutter docs).Keeps fun s => s.root = root where
  cut _ _ h := h
  paste s b h := by
    obtain ⟨_, _, -, hp⟩ | ⟨_, -, -, -, hp⟩ | ⟨_, _, _, _, -, -, -, -, hp⟩ :=
      paste_cases docs s b <;>
    · rw [hp]
      exact h
  pasted _ h := h

/-- So the documents that are active are the root and those that go through. -/
theorem mem_going_of_leads (hm : Moment.Leads (cutter docs) (loading id text limit) m) :
    e ∈ m.cutout.state.going ↔ e = id ∨ e ∈ m.cutout.state.included.map Included.id := by
  have hroot : m.cutout.state.root = some id := (keeps_root docs (some id)).leads hm rfl
  rw [going, hroot, List.mem_append, Option.toList_some, List.mem_singleton, or_comm]

/-- A form closes a cycle: it is handed over at a moment, it includes a document or the modules of
    one, and this is the root or is being included. `rest` is what is left when nothing takes the
    place of the form. -/
structure Recurs (docs : Documents) (id : String) (m : Moment Includer Builder) (form : Node)
    (e : String) (rest : Moment Includer Builder) : Prop where
  closing : ∃ b, m.closing? = some (b, rest) ∧ b.node? = some form
  head : form.headName? ∈ [some includeWord, some modulesWord]
  names : docs.identify form = .ok e
  active : e = id ∨ e ∈ m.cutout.state.included.map Included.id

/-- Whether a form closes a cycle next can be seen from the moment. -/
instance (docs : Documents) (id : String) (m : Moment Includer Builder) (e : String) :
    Decidable (∃ form rest, Recurs docs id m form e rest) :=
  decidable_of_iff
    ((m.closing?.bind fun p => p.1.node?).any (fun form =>
        (form.headName? = some includeWord ∨ form.headName? = some modulesWord) ∧
          (docs.identify form).toOption = some e) ∧
      (e = id ∨ m.cutout.state.included.any (fun i => i.id = e))) <| by
    have hok : ∀ form, (docs.identify form).toOption = some e ↔ docs.identify form = .ok e := by
      intro form
      cases docs.identify form <;> simp [Except.toOption]
    have hincluded : m.cutout.state.included.any (fun i => i.id = e)
        ↔ e ∈ m.cutout.state.included.map Included.id := by simp
    rw [hincluded]
    simp only [Option.any_eq_true, decide_eq_true_eq, Option.bind_eq_some_iff, hok]
    constructor
    · rintro ⟨⟨form, ⟨⟨b, rest⟩, hclosing, hform⟩, hhead, hnames⟩, hactive⟩
      exact ⟨form, rest, ⟨b, hclosing, hform⟩, by simpa using hhead, hnames, hactive⟩
    · rintro ⟨form, rest, ⟨b, hclosing, hform⟩, hhead, hnames, hactive⟩
      exact ⟨⟨form, ⟨⟨b, rest⟩, hclosing, hform⟩, by simpa using hhead, hnames⟩, hactive⟩

/-- **A step that reports a cycle** is the one at which a form closes it, and no module include is
    going on. -/
theorem reports_next? {m' : Moment Includer Builder}
    (hm : Moment.Leads (cutter docs) (loading id text limit) m)
    (hnext : m.next? (cutter docs) = some m') {r : Report} (hr : r ∈ m'.cutout.state.reports)
    (hproblem : r.problem = .recursiveInclude e) :
    r ∈ m.cutout.state.reports ∨
      ∃ form rest, Recurs docs id m form e rest ∧ m.cutout.state.filtering = false ∧
        r = .atNode (.recursiveInclude e) form := by
  have hwords : ∀ s head, ((cutter docs).cut s head).2.isSome →
      head ∈ [includeWord, modulesWord, rootOnlyWord] := by
    intro s head hcut
    simpa [cutter] using hcut
  -- only closing a form makes reports
  obtain hs | ⟨head, hs⟩ | hs | ⟨b, rest, hclosing, hs⟩ := Moment.next?_cases hnext <;>
    rw [hs] at hr
  · exact .inl hr
  · exact .inl hr
  · exact .inl hr
  · obtain hold | hparse | ⟨why, hwhy⟩ | ⟨form, e', hform, hother, hnames, hactive, hquiet, rfl⟩ :=
      reports_paste hr
    · exact .inl hold
    · rw [hproblem] at hparse
      cases hparse
    · rw [hproblem] at hwhy
      cases hwhy
    · obtain rfl : e' = e := Problem.recursiveInclude.inj hproblem
      -- the form that is closed has one of the three words the cutter asks for as its head
      obtain ⟨form', head, hform', hhead, hmem⟩ :=
        Moment.closing?_wanted (cutter_onNodes docs) hwords hm hclosing
      obtain rfl : form = form' := Option.some.inj (hform.symm.trans hform')
      refine .inr ⟨form, rest, ⟨⟨b, hclosing, hform⟩, ?_, hnames, ?_⟩, hquiet, rfl⟩
      · rw [hhead] at hother ⊢
        simpa [or_assoc, show head ≠ rootOnlyWord from fun h => hother (congrArg some h)] using hmem
      · exact (mem_going_of_leads hm).mp hactive

/-- **Cycles are dropped, and reported unless a module include is going on.** Take any moment of
    loading a text as the root document. If a form closes that includes the root, or a document that
    is being included, nothing is passed on in its place, and what follows goes on. While a module
    include is going on nothing is reported; else a single report is made, at the form, whether or
    not the form itself takes modules only. No other moment reports that a document includes itself,
    and what is reported in the end is what the last moment has. -/
theorem loading_recurs (docs : Documents) (id text : String) (limit : Nat) :
    (∀ m form e rest, Moment.Leads (cutter docs) (loading id text limit) m →
      Recurs docs id m form e rest →
        (rest.cutout.state = m.cutout.state ∧ rest.cutout.sent = m.cutout.sent ∧
          rest.cutout.frames = m.cutout.frames.tail ∧ rest.tasks = m.tasks.tail) ∧
        (m.cutout.state.filtering = true → m.next? (cutter docs) = some rest) ∧
        (m.cutout.state.filtering = false → m.next? (cutter docs) = some
          { rest with cutout := { rest.cutout with
              state := m.cutout.state.report [.atNode (.recursiveInclude e) form] } })) ∧
    (∀ m, Moment.Leads (cutter docs) (loading id text limit) m → ∀ r ∈ m.cutout.state.reports,
      ∀ e, r.problem = .recursiveInclude e → ∃ m₁ form rest,
        Moment.Leads (cutter docs) (loading id text limit) m₁ ∧ Moment.Leads (cutter docs) m₁ m ∧
          Recurs docs id m₁ form e rest ∧ m₁.cutout.state.filtering = false ∧
          r = .atNode (.recursiveInclude e) form) ∧
    ∀ levels l, includeSource docs levels id text limit = some l →
      ∃ last, Moment.Leads (cutter docs) (loading id text limit) last ∧ last.tasks = [] ∧
        l.reports = last.cutout.state.reports := by
  refine ⟨?_, ?_, fun levels l h => exists_last_moment h⟩
  · intro m form e rest hm hrecurs
    obtain ⟨⟨b, hclosing, hform⟩, hhead, hnames, hactive⟩ := hrecurs
    have hdropped := Moment.dropped_closing? hclosing
    have hpaste := paste_active hform hhead hnames ((mem_going_of_leads hm).mpr hactive)
    have hnext := Moment.next?_closing hclosing hpaste
    refine ⟨hdropped, fun hfiltering => ?_, fun hfiltering => ?_⟩
    · rw [hnext, hfiltering, if_pos rfl, ← hdropped.1]
    · rw [hnext, hfiltering]
      rfl
  · intro m hm r hr e hproblem
    -- going back along the run: the report was there a moment before, or this step made it
    induction hm with
    | refl =>
      have hparse : r.problem.category = .parse := category_parse _ text r hr
      rw [hproblem] at hparse
      cases hparse
    | @tail k m hk hstep ih =>
      obtain hold | ⟨form, rest, hrecurs, hquiet, hform⟩ := reports_next? hk hstep hr hproblem
      · obtain ⟨m₁, form, rest, hfirst, hthen, hcycle⟩ := ih hold
        exact ⟨m₁, form, rest, hfirst, hthen.tail hstep, hcycle⟩
      · exact ⟨k, form, rest, hk, .single hstep, hrecurs, hquiet, hform⟩

/-- A library takes the modules of itself, which is not reported, and then a root document includes
    itself, which is. -/
theorem loading_recurs_library :
    let docs := Documents.ofList [("lib", "(~module a) (include-modules lib)")]
    let start := loading "main" "(include-modules lib) (include main)" 1024
    (∃ m rest, Moment.Leads (cutter docs) start m ∧ (∃ form, Recurs docs "main" m form "lib" rest) ∧
      m.cutout.state.filtering = true ∧ m.next? (cutter docs) = some rest) ∧
    ∃ last r, Moment.Leads (cutter docs) start last ∧ r ∈ last.cutout.state.reports ∧
      r.problem = .recursiveInclude "main" ∧ ∃ m₁ form rest,
        Moment.Leads (cutter docs) start m₁ ∧ Moment.Leads (cutter docs) m₁ last ∧
          Recurs docs "main" m₁ form "main" rest ∧ m₁.cutout.state.filtering = false := by
  intro docs start
  obtain ⟨hcycles, hreported, -⟩ :=
    loading_recurs docs "main" "(include-modules lib) (include main)" 1024
  constructor
  · -- after 23 moments the module cycle of the library closes, quietly
    have hquiet : (start.later? (cutter docs) 23).any (fun m =>
        (∃ form rest, Recurs docs "main" m form "lib" rest) ∧
          m.cutout.state.filtering = true) = true := by decide +kernel
    obtain ⟨m, hm, hquiet⟩ := (Option.any_eq_true ..).mp hquiet
    obtain ⟨⟨form, rest, hform⟩, hfiltering⟩ := of_decide_eq_true hquiet
    have hleads := Moment.leads_later? hm
    exact ⟨m, rest, hleads, ⟨form, hform⟩, hfiltering,
      (hcycles m form "lib" rest hleads hform).2.1 hfiltering⟩
  · -- after 33 moments the cycle through the root has been reported
    have hloud : (start.later? (cutter docs) 33).any (fun last =>
        last.cutout.state.reports.any (·.problem = .recursiveInclude "main")) = true := by
      decide +kernel
    obtain ⟨last, hlast, hloud⟩ := (Option.any_eq_true ..).mp hloud
    obtain ⟨r, hr, hproblem⟩ := List.any_eq_true.mp hloud
    have hproblem : r.problem = .recursiveInclude "main" := of_decide_eq_true hproblem
    have hleads := Moment.leads_later? hlast
    obtain ⟨m₁, form, rest, hfirst, hthen, hrecurs, hfiltering, -⟩ :=
      hreported last hleads r hr "main" hproblem
    exact ⟨last, r, hleads, hr, hproblem, m₁, form, rest, hfirst, hthen, hrecurs, hfiltering⟩

/-- **A module include that is the first on its way is reported.** The root document takes the
    modules of itself: the cycle has no other include in it. -/
theorem includeSource_modules_of_root :
    (includeSource (.ofList []) 0 "main" "(include-modules main)" 1024).map
      (fun l => l.reports.map (·.problem)) = some [.recursiveInclude "main"] := by
  decide +kernel

end Includer

end Formwork
