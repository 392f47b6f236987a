import Mathlib.Data.List.Perm.Subperm
import Formwork.Proofs.Cutout.Cutters
import Formwork.Proofs.Cutout.Moments

namespace Formwork

/-!
# Expanding ends

The names of the rules whose expansions are going on are distinct names of rules, so there are no
more of them than rules, and every expansion ends.

* `Expander.Sound` — what holds of the active names at every moment.
* `Expander.tracks_active` — every expansion puts its name on the active names and takes it off.
* `Expander.expand_ends` — expanding ends, and leaves the active names and the rules as they were.
-/

namespace Expander

/-! ### The active names -/

/-- The active names are distinct names of rules, and not more than allowed. -/
structure Sound (x : Expander) : Prop where
  nodup : x.active.Nodup
  registered : ∀ name ∈ x.active, (x.rule? name).isSome
  bounded : x.active.length ≤ x.maxDepth

/-- No expansion going on is fine. -/
theorem sound_of_idle {x : Expander} (h : x.active = []) : x.Sound where
  nodup := by rw [h]; exact List.nodup_nil
  registered := by simp [h]
  bounded := by simp [h]

/-- A rule that is found has its name among the names of the rules. -/
private theorem mem_names_of_isSome {x : Expander} {name : String} (h : (x.rule? name).isSome) :
    name ∈ x.rules.map Rule.name := by
  obtain ⟨r, hr⟩ := Option.isSome_iff_exists.mp h
  have hmem := List.mem_of_find?_eq_some hr
  have hname : r.name = name := by simpa using List.find?_some hr
  exact List.mem_map.mpr ⟨r, hmem, hname⟩

/-- There are no more active names than rules. -/
theorem Sound.length_le {x : Expander} (h : x.Sound) : x.active.length ≤ x.rules.length := by
  have hsub : x.active ⊆ x.rules.map Rule.name :=
    fun name hname => mem_names_of_isSome (h.registered name hname)
  have hlen := (List.subperm_of_subset h.nodup hsub).length_le
  rwa [List.length_map] at hlen

/-- An invocation that nothing speaks against is of no active rule, and there is room for it. -/
theorem of_refusal_eq_nil {x : Expander} {r : Rule} {inv : Invocation}
    (h : x.refusal r inv = []) : inv.name ∉ x.active ∧ x.active.length < x.maxDepth := by
  unfold refusal at h
  split at h
  case isTrue => exact absurd h (by simp)
  case isFalse hfresh =>
    split at h
    case isTrue => exact absurd h (by simp)
    case isFalse hroom => exact ⟨hfresh, Nat.lt_of_not_le hroom⟩

/-- The active names stay sound when an expansion begins. -/
theorem Sound.expanding {x : Expander} (h : x.Sound) {r : Rule} {inv : Invocation}
    (hr : x.rule? inv.name = some r) (hf : x.refusal r inv = []) : (x.expanding r inv).Sound := by
  obtain ⟨hfresh, hroom⟩ := of_refusal_eq_nil hf
  constructor
  · exact List.nodup_cons.mpr ⟨hfresh, h.nodup⟩
  · intro name hname
    obtain rfl | hname := List.mem_cons.mp hname
    · exact Option.isSome_iff_exists.mpr ⟨r, hr⟩
    · exact h.registered name hname
  · exact hroom

/-- The active names stay sound when an expansion has ended. -/
theorem Sound.tail {x : Expander} (h : x.Sound) : ({ x with active := x.active.tail }).Sound where
  nodup := h.nodup.sublist (List.tail_sublist _)
  registered name hname := h.registered name (List.mem_of_mem_tail hname)
  bounded := by
    have := h.bounded
    simp only [List.length_tail]
    omega

/-- Every answer puts a name on the active names, which is taken off when it has gone through. -/
theorem tracks_active : cutter.Tracks active where
  cut _ _ := rfl
  refused x b h := by
    obtain ⟨rs, hp⟩ | ⟨inv, r, -, -, hp⟩ := paste_cases x b
    · rw [hp]
      rfl
    · rw [hp] at h
      exact absurd h (by simp)
  answered x b es h := by
    obtain ⟨rs, hp⟩ | ⟨inv, r, -, -, hp⟩ := paste_cases x b
    · rw [hp] at h
      exact absurd h (by simp)
    · exact ⟨inv.name, by rw [hp]; rfl⟩
  pasted _ := rfl

/-- Soundness is kept, and so are the rules and the number of expansions allowed at once. -/
theorem keeps_sound (rules : List Rule) (maxDepth : Nat) :
    cutter.Keeps fun x => x.Sound ∧ x.rules = rules ∧ x.maxDepth = maxDepth where
  cut _ _ h := h
  paste x b h := by
    obtain ⟨hx, hrules, hdepth⟩ := h
    obtain ⟨rs, hp⟩ | ⟨inv, r, hr, hf, hp⟩ := paste_cases x b
    · rw [hp]
      exact ⟨⟨hx.nodup, hx.registered, hx.bounded⟩, hrules, hdepth⟩
    · rw [hp]
      exact ⟨hx.expanding hr hf, hrules, hdepth⟩
  pasted x h := ⟨h.1.tail, h.2⟩

/-! ### The run -/

/-- A run that begins with sound active names ends. -/
theorem Sound.exists_feed {x : Expander} (h : x.Sound) (es : List Event) {levels : Nat}
    (hlevels : x.rules.length ≤ levels + x.active.length) :
    ∃ c', Cutout.feed cutter levels ({ state := x } : Cutout Expander Builder) es = some c' := by
  refine tracks_active.exists_feed_start (fun m hm => ?_) hlevels
  -- at every moment the active names are distinct names of the same rules
  obtain ⟨hm, hrules, -⟩ := (keeps_sound x.rules x.maxDepth).leads hm ⟨h, rfl, rfl⟩
  rw [← hrules]
  exact hm.length_le

/-- The expanders that are made by adding rules and by expanding. -/
inductive Usable (maxDepth : Nat) : Expander → Prop where
  | new : Usable maxDepth { maxDepth }
  | register {x : Expander} (h : Usable maxDepth x) (r : Rule) : Usable maxDepth (x.register r)
  | expand {x : Expander} (h : Usable maxDepth x) (ns : List Node) :
      Usable maxDepth (x.expand ns).1

/-- What expanding comes to: the last moment of a run that ends. -/
theorem exists_last {x : Expander} (hx : x.Sound) (ns : List Node) :
    ∃ last : Moment Expander Builder,
      Moment.Leads cutter (.start x (Node.eventsAll ns)) last ∧ last.tasks = [] ∧
        x.expand ns = (last.cutout.state, last.cutout.release.sent.reverse) ∧
        last.cutout.state.active = x.active ∧ last.cutout.state.rules = x.rules ∧
        last.cutout.state.maxDepth = x.maxDepth := by
  obtain ⟨c, hc⟩ := hx.exists_feed (Node.eventsAll ns) (Nat.le_add_right _ _)
  have hleads := Cutout.feed_leads hc []
  rw [List.append_nil] at hleads
  obtain ⟨-, hrules, hdepth⟩ := (keeps_sound x.rules x.maxDepth).leads hleads ⟨hx, rfl, rfl⟩
  refine ⟨⟨c, []⟩, hleads, rfl, ?_, tracks_active.feed hc, hrules, hdepth⟩
  rw [expand, Cutter.run, hc]
  rfl

/-- No expansion is going on between the uses of an expander. -/
theorem Usable.idle {maxDepth : Nat} {x : Expander} (h : Usable maxDepth x) :
    x.active = [] ∧ x.maxDepth = maxDepth := by
  induction h with
  | new => exact ⟨rfl, rfl⟩
  -- a rule that is added does not touch the active names
  | register h r ih => exact ih
  | @expand x h ns ih =>
    obtain ⟨last, -, -, hlast, hactive, -, hdepth⟩ := exists_last (sound_of_idle ih.1) ns
    rw [hlast]
    exact ⟨hactive.trans ih.1, hdepth.trans ih.2⟩

/-- **Expanding ends.** The run of a usable expander reaches a moment with nothing left to do, whose
    state and events are the result. At every moment the active names are distinct names of rules,
    and not more than allowed. There are none before and after, and the rules stay the same. -/
theorem expand_ends {maxDepth : Nat} {x : Expander} (hx : Usable maxDepth x) (ns : List Node) :
    ∃ last : Moment Expander Builder,
      Moment.Leads cutter (.start x (Node.eventsAll ns)) last ∧ last.tasks = [] ∧
        x.expand ns = (last.cutout.state, last.cutout.release.sent.reverse) ∧
        (∀ m : Moment Expander Builder, Moment.Leads cutter (.start x (Node.eventsAll ns)) m →
          m.cutout.state.active.Nodup ∧
            (∀ name ∈ m.cutout.state.active, (x.rule? name).isSome) ∧
            m.cutout.state.active.length ≤ maxDepth) ∧
        x.active = [] ∧ last.cutout.state.active = [] ∧ last.cutout.state.rules = x.rules ∧
        last.cutout.state.maxDepth = maxDepth := by
  obtain ⟨hidle, hdepth⟩ := hx.idle
  have hsound := sound_of_idle hidle
  obtain ⟨last, hleads, hdone, hlast, hactive, hrules, hmax⟩ := exists_last hsound ns
  refine ⟨last, hleads, hdone, hlast, fun m hm => ?_, hidle, hactive.trans hidle, hrules,
    hmax.trans hdepth⟩
  -- being sound holds at the start and is kept by every step, so it holds at each moment
  obtain ⟨hm, hmrules, hmdepth⟩ :=
    (keeps_sound x.rules x.maxDepth).leads hm ⟨hsound, rfl, rfl⟩
  refine ⟨hm.nodup, fun name hname => ?_, ?_⟩
  · rw [rule?, ← hmrules]
    exact hm.registered name hname
  · rw [← hdepth, ← hmdepth]
    exact hm.bounded

/-- Two templates that expand to each other: the run ends with a report. -/
theorem expand_ends_twins :
    Usable 2 twins ∧
      ∃ last : Moment Expander Builder,
        Moment.Leads cutter (.start twins (Node.eventsAll [callOf "a"])) last ∧ last.tasks = [] ∧
          last.cutout.state.active = [] ∧
          last.cutout.state.reports.map (·.problem) = [.recursiveExpansion "a"] := by
  have hx : Usable 2 twins := .register (.register .new _) _
  obtain ⟨last, hleads, hdone, hlast, -, -, hactive, -, -⟩ := expand_ends hx [callOf "a"]
  refine ⟨hx, last, hleads, hdone, hactive, ?_⟩
  have hreports : (twins.expand [callOf "a"]).1.reports.map (·.problem)
      = [.recursiveExpansion "a"] := by decide +kernel
  rwa [hlast] at hreports

end Expander

end Formwork
