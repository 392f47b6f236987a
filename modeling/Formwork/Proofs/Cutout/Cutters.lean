import Formwork.Expander
import Formwork.Include
import Formwork.Template.Strip
import Formwork.Proofs.Cutout.Rewrite
import Formwork.Proofs.Substitution

namespace Formwork

/-!
# What the cutters do with a group

The three cutters — the one that collects template definitions, the one that expands invocations and
the one that replaces include forms — collect into fresh builders and answer with replays of nodes,
so their runs are rewrites of nodes (`cutter_onNodes`).

`Expander.paste_layers` and `Includer.paste_cases` say everything that can happen when a group is
handed over. What is proved of these two later is proved from them, without opening the cutters
again; `Expander.paste_cases` is what most of it needs.
-/

/-- The events of one node are a replay. -/
theorem Event.replays_events (n : Node) : Event.Replays n.events [n] := by
  have h := Event.replays_eventsAll [n]
  rwa [Node.eventsAll, Node.eventsAll, List.append_nil] at h

/-- Definitions are taken out and nothing takes their place. -/
theorem Stripper.cutter_onNodes : Stripper.cutter.OnNodes where
  fresh s head b h := by
    simp only [cutter] at h
    split at h
    · exact (Option.some.inj h).symm
    · exact absurd h (by simp)
  replays s b es h := by
    simp only [cutter] at h
    split at h <;> exact absurd h (by simp)

/-! ### Expanding invocations -/

/-- What a rule expands to is a replay of nodes. -/
theorem Rule.expand_replays (number : Nat) (inv : Invocation) (r : Rule) :
    ∃ ns, Event.Replays (r.expand number inv).events ns := by
  cases r with
  | concat => exact ⟨_, Event.replays_events _⟩
  | uniqueName => exact ⟨_, Event.replays_events _⟩
  | template t => exact ⟨_, Substitution.replays_events (t.transform inv)⟩

namespace Expander

/-- The expander when an invocation has been accepted and its expansion goes through. -/
def expanding (x : Expander) (r : Rule) (inv : Invocation) : Expander :=
  { x.report (r.expand (x.made + 1) inv).reports with
    made := x.made + r.names
    active := inv.name :: x.active }

/-- What can happen to a group that is handed over, layer by layer: it is no invocation of a rule; it
    cannot be read as an invocation; something speaks against expanding it; or it is expanded. -/
theorem paste_layers (x : Expander) (b : Builder) :
    cutter.paste x b = (x, none) ∨
      (∃ n report, Invocation.ofNode n = .error report ∧
        cutter.paste x b = (x.report [report], none)) ∨
      ∃ inv rule, b.node?.map Invocation.ofNode = some (.ok inv) ∧
        x.rule? inv.name = some rule ∧
        (cutter.paste x b = (x.report (x.refusal rule inv), none) ∨
          x.refusal rule inv = [] ∧ cutter.paste x b
            = (x.expanding rule inv, some (rule.expand (x.made + 1) inv).events)) := by
  simp only [cutter]
  -- the buffer is no single node, or is no call, or is a call: of no rule, refused or expanded
  split
  · exact .inl rfl
  · next n hn =>
    unfold replace
    cases hread : Invocation.ofNode n with
    | error report => exact .inr (.inl ⟨n, report, hread, rfl⟩)
    | ok inv =>
      cases hfound : x.rule? inv.name with
      | none =>
        simp only [hfound]
        exact .inl trivial
      | some rule =>
        refine .inr (.inr ⟨inv, rule, ?_, hfound, ?_⟩)
        · rw [hn, Option.map_some, hread]
        · simp only [hfound]
          unfold invoke
          cases hrefusal : x.refusal rule inv with
          | nil => exact .inr ⟨rfl, rfl⟩
          | cons q qs => exact .inl rfl

/-- A group is refused, which only adds reports, or it is an invocation of a rule that nothing
    speaks against, and is replaced by the expansion. -/
theorem paste_cases (x : Expander) (b : Builder) :
    (∃ rs, cutter.paste x b = (x.report rs, none)) ∨
      ∃ inv r, x.rule? inv.name = some r ∧ x.refusal r inv = [] ∧
        cutter.paste x b = (x.expanding r inv, some (r.expand (x.made + 1) inv).events) := by
  rcases x.paste_layers b with hp | ⟨_, report, _, hp⟩ | ⟨inv, r, _, hr, hp | ⟨hf, hp⟩⟩
  · have hx : x.report [] = x := by simp [report]
    exact .inl ⟨[], by rw [hp, hx]⟩
  · exact .inl ⟨[report], hp⟩
  · exact .inl ⟨x.refusal r inv, hp⟩
  · exact .inr ⟨inv, r, hr, hf, hp⟩

/-- Invocations are taken out, and replays of nodes take their place. -/
theorem cutter_onNodes : cutter.OnNodes where
  fresh x head b h := by
    obtain ⟨r, -, hb⟩ := Option.map_eq_some_iff.mp h
    exact hb.symm
  replays x b es h := by
    obtain ⟨rs, hp⟩ | ⟨inv, r, -, -, hp⟩ := paste_cases x b
    · rw [hp] at h
      exact absurd h (by simp)
    · rw [hp] at h
      exact (Option.some.inj h) ▸ r.expand_replays _ inv

/-- An invocation without arguments. -/
def callOf (name : String) : Node :=
  .group .paren [.atom (Atom.plain name .nowhere)] .nowhere .nowhere

/-- Two templates that expand to each other, for trying out what is proved. -/
def twins : Expander :=
  ({ maxDepth := 2 } : Expander).registerAll
    [.template { name := "a", location := .nowhere, body := [callOf "b"] },
      .template { name := "b", location := .nowhere, body := [callOf "a"] }]

end Expander

/-! ### Replacing include forms -/

namespace Includer

/-- The includer when a document has been fetched and its nodes go through. -/
def including (s : Includer) (form : Node) (id text : String) (modulesOnly : Bool) : Includer :=
  { s with
    stack := some { id, modulesOnly } :: s.stack
    consulted := id :: s.consulted
    reports := s.reports ++ (s.spliced form id text modulesOnly).2 }

/-- A form is dropped, which does not change what is going through, and all that is reported is about
    the form; or it is a `no-include` form of the root document, and is replaced by its contents; or
    it includes a document that is not active, and is replaced by the nodes of the document. -/
theorem paste_cases (docs : Documents) (s : Includer) (b : Builder) :
    (∃ asked reports,
      (∀ r ∈ reports, ∃ form problem, b.node? = some form ∧ r = .atNode problem form) ∧
        (cutter docs).paste s b
          = ({ s with consulted := asked ++ s.consulted, reports := s.reports ++ reports }, none)) ∨
      (∃ form, b.node? = some form ∧ form.headName? = some rootOnlyWord ∧ s.inRoot = true ∧
        (cutter docs).paste s b
          = ({ s with stack := none :: s.stack }, some (Node.eventsAll form.tail))) ∨
      ∃ form id text modulesOnly, b.node? = some form ∧ docs.identify form = .ok id ∧
        s.isActive id = false ∧ docs.fetch id = .ok text ∧
        (cutter docs).paste s b
          = (s.including form id text modulesOnly,
              some (Node.eventsAll (s.spliced form id text modulesOnly).1)) := by
  have hsame : { s with consulted := [] ++ s.consulted, reports := s.reports ++ [] } = s := by
    rw [List.append_nil, List.nil_append]
  simp only [cutter]
  split
  case h_2 => exact .inl ⟨[], [], by simp, by rw [hsame]⟩
  case h_1 form hform =>
    have hreport : ∀ problem : Problem, ∀ r ∈ [Report.atNode problem form],
        ∃ form problem, b.node? = some form ∧ r = .atNode problem form := by
      intro problem r hr
      exact ⟨form, problem, hform, List.mem_singleton.mp hr⟩
    unfold replace
    split
    case h_1 => exact .inl ⟨[], [], by simp, by rw [hsame]⟩
    case h_2 head hhead =>
      split
      case isTrue hroot =>
        -- `no-include` counts in the root only
        split
        case isTrue hin => exact .inr (.inl ⟨form, hform, hroot ▸ hhead, hin, rfl⟩)
        case isFalse => exact .inl ⟨[], [], by simp, by rw [hsame]⟩
      case isFalse =>
        unfold includeDocument
        split
        case h_1 => exact .inl ⟨[], _, hreport _, rfl⟩
        case h_2 id hid =>
          split
          case isTrue =>
            split
            · exact .inl ⟨[], [], by simp, by rw [hsame]⟩
            · exact .inl ⟨[], _, hreport _, rfl⟩
          case isFalse hactive =>
            split
            case h_1 => exact .inl ⟨[id], _, hreport _, rfl⟩
            case h_2 text htext =>
              exact .inr (.inr ⟨form, id, text, _, hform, hid, by simpa using hactive, htext, rfl⟩)

/-- Include forms are taken out, and nodes take their place. -/
theorem cutter_onNodes (docs : Documents) : (cutter docs).OnNodes where
  fresh s head b h := by
    simp only [cutter] at h
    split at h
    · exact (Option.some.inj h).symm
    · exact absurd h (by simp)
  replays s b es h := by
    obtain ⟨_, _, -, hp⟩ | ⟨form, -, -, -, hp⟩ | ⟨form, id, text, m, -, -, -, -, hp⟩ :=
      paste_cases docs s b
    · rw [hp] at h
      exact absurd h (by simp)
    · rw [hp] at h
      exact ⟨_, (Option.some.inj h) ▸ Event.replays_eventsAll _⟩
    · rw [hp] at h
      exact ⟨_, (Option.some.inj h) ▸ Event.replays_eventsAll _⟩

end Includer

end Formwork
