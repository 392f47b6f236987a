import Formwork.Proofs.Expander.Leftovers

namespace Formwork

/-!
# The stages as rewrites

Each stage of processing a document hands nodes on as events. Said of the nodes themselves, taking
comments out is `Node.uncommentedAll`, and the three stages that cut something out are the rewrites
of their cutters, one after another.

* `Options.exists_rewrites` — what becomes of the nodes of a document once its includes have been
  replaced.
* `includeSource_eq_rewrite` — replacing the includes of a document.
-/

/-! ### Cutting out -/

variable {σ : Type}

/-- Letting the events of nodes go through a cutout is rewriting the nodes, made plain. -/
theorem Cutter.run_eventsAll {cutter : Cutter σ Builder} (hc : cutter.OnNodes) (levels : Nat)
    (s : σ) (ns : List Node) :
    cutter.run levels s (Node.eventsAll ns)
      = (cutter.rewrite levels (Node.plainAll ns) s).map fun r => (r.1, Node.eventsAll r.2) := by
  rw [← Node.eventsAll_plainAll]
  exact run_of_replays hc levels s (Node.plainAll_plainAll ns) (Event.replays_eventsAll _)

/-- What is rewritten from plain nodes is built from its events. -/
theorem Cutter.OnNodes.build_rewrite {cutter : Cutter σ Builder} (hc : cutter.OnNodes)
    {levels : Nat} {s : σ} {ns : List Node} {r : σ × List Node}
    (h : cutter.rewrite levels (Node.plainAll ns) s = some r) :
    Builder.build (Node.eventsAll r.2) = r.2 := by
  rw [Builder.build_eventsAll]
  exact rewrite_plain hc levels _ s r (Node.plainAll_plainAll ns) h

/-- A definition that is handed over is collected, and nothing takes its place. -/
theorem Stripper.paste_holding (s : Stripper) (n : Node) :
    cutter.paste s (Builder.holding n) = (s.collect n, none) := rfl

mutual

/-- Collecting definitions from a node ends, since nothing takes their place. -/
theorem Stripper.exists_rewriteNode (replay : List Node → Stripper → Option (Stripper × List Node)) :
    ∀ (n : Node) (s : Stripper), ∃ r, Stripper.cutter.rewriteNode replay n s = some r
  | .atom a, s => ⟨_, Cutter.rewriteNode_atom ..⟩
  | .comment c, s => ⟨(s, [.comment c]), by rw [Cutter.rewriteNode]⟩
  | .group d cs l stop, s => by
    obtain ⟨r, hr⟩ := exists_rewriteAll replay cs
      (Stripper.cutter.ask s (Node.group d cs l stop).headName?).1
    rw [Cutter.rewriteNode, hr, Option.bind_some]
    split
    · exact ⟨_, Cutter.replace_of_none (paste_holding r.1 (.group d r.2 l stop))⟩
    · exact ⟨_, rfl⟩

/-- Collecting definitions from nodes ends, since nothing takes their place. -/
theorem Stripper.exists_rewriteAll (replay : List Node → Stripper → Option (Stripper × List Node)) :
    ∀ (ns : List Node) (s : Stripper), ∃ r, Stripper.cutter.rewriteAll replay ns s = some r
  | [], s => ⟨(s, []), by rw [Cutter.rewriteAll]⟩
  | n :: ns, s => by
    obtain ⟨r, hr⟩ := exists_rewriteNode replay n s
    obtain ⟨q, hq⟩ := exists_rewriteAll replay ns r.1
    exact ⟨_, by rw [Cutter.rewriteAll, hr, Option.bind_some, hq, Option.map_some]⟩

end

/-- What is left of nodes without their definitions, as a rewrite. -/
theorem stripTemplates_of_rewrite {ns : List Node} {s : Stripper} {ks : List Node}
    (h : Stripper.cutter.rewrite 0 (Node.plainAll ns) {} = some (s, ks)) :
    stripTemplates ns
      = { templates := s.templates, events := Node.eventsAll ks, reports := s.reports } := by
  rw [stripTemplates, Cutter.run_eventsAll Stripper.cutter_onNodes, h]
  rfl

/-- **The stages after including.** Taking comments out, collecting templates and expanding are
    rewrites of the nodes of a document, one after another, and they end. -/
theorem Options.exists_rewrites (o : Options) (ns : List Node) :
    ∃ s ks x ms,
      Stripper.cutter.rewrite 0 (Node.plainAll (Node.withComments o.keepComments ns)) {}
          = some (s, ks) ∧
        Expander.cutter.rewrite (o.expander s.templates).rules.length ks (o.expander s.templates)
          = some (x, ms) ∧
        o.expandNodes ns = (ms, s.reports ++ x.reports) := by
  obtain ⟨⟨s, ks⟩, hstrip⟩ := Stripper.exists_rewriteAll (fun _ _ => none)
    (Node.plainAll (Node.withComments o.keepComments ns)) {}
  -- what comes out of the first cutout is built already, so the second goes on with it as it is
  have hks : Node.plainAll ks = ks :=
    Cutter.rewrite_plain Stripper.cutter_onNodes 0 _ _ _ (Node.plainAll_plainAll _) hstrip
  obtain ⟨x, calls, ms, hlog, hexpand, -⟩ := (o.sound_expander s.templates).exists_rewrite ks
  rw [hks] at hlog
  have hrewrite := Cutter.rewrite_logged Expander.cutter (o.expander s.templates).rules.length ks
    (o.expander s.templates, [])
  rw [hlog, Option.map_some, eq_comm] at hrewrite
  refine ⟨s, ks, x, ms, hstrip, hrewrite, ?_⟩
  have hplain : stripTemplates (Node.plainAll (Node.withComments o.keepComments ns))
      = { templates := s.templates, events := Node.eventsAll ks, reports := s.reports } :=
    stripTemplates_of_rewrite (by rw [Node.plainAll_plainAll]; exact hstrip)
  simp only [expandNodes, Node.filterComments_eventsAll, Builder.build_eventsAll, hplain, hks,
    hexpand]

/-! ### Including -/

/-- The includer that a root document starts with. -/
def Includer.opening (id text : String) (limit : Nat) : Includer :=
  { root := some id, limit, reports := (parse { origin := id, limit } text).2 }

/-- **Including is a rewrite** of the nodes of the root document. -/
theorem includeSource_eq_rewrite (docs : Documents) (levels : Nat) (id text : String) (limit : Nat) :
    includeSource docs levels id text limit
      = ((Includer.cutter docs).rewrite levels
          (Node.plainAll (parse { origin := id, limit } text).1)
          (.opening id text limit)).map fun r =>
        { nodes := r.2, reports := r.1.reports, consulted := r.1.consulted.reverse } := by
  have hrun := Cutter.run_eventsAll (Includer.cutter_onNodes docs) levels (.opening id text limit)
    (parse { origin := id, limit } text).1
  simp only [includeSource, Includer.process]
  rw [show ({ root := some id, limit, reports := (parse { origin := id, limit } text).2 } : Includer)
    = .opening id text limit from rfl, hrun, Option.map_map]
  cases h : (Includer.cutter docs).rewrite levels
      (Node.plainAll (parse { origin := id, limit } text).1) (.opening id text limit) with
  | none => rfl
  | some r =>
    simp only [Option.map_some, Function.comp_apply,
      (Includer.cutter_onNodes docs).build_rewrite h]

end Formwork
