import Formwork.Proofs.Cutout.Moments
import Formwork.Proofs.Cutout.Simulation

namespace Formwork

/-!
# Seeing a part of the state

A cutter that keeps more in its state than another one does, and otherwise does the same, makes the
same of everything: its runs look like those of the other one as soon as only that part of the state
is seen that both have.

* `Cutter.Shows` — one cutter does what another does, on the part of its state that is seen.
* `Cutter.Shows.rewrite`, `Cutter.Shows.feed`, `Cutter.Shows.run` — so do rewrites and runs.
* `Cutter.Shows.next?` — and each step of a run.
-/

variable {σ τ β : Type}

namespace Cutter

/-- Whether one cutter does what another one does, on the part of its state that `view` shows. -/
structure Shows (cutter' : Cutter τ β) (view : τ → σ) (cutter : Cutter σ β) : Prop where
  cut : ∀ t head, cutter.cut (view t) head
    = (view (cutter'.cut t head).1, (cutter'.cut t head).2)
  paste : ∀ t b, cutter.paste (view t) b = (view (cutter'.paste t b).1, (cutter'.paste t b).2)
  pasted : ∀ t, cutter.pasted (view t) = view (cutter'.pasted t)

/-! ### Rewrites -/

/-- Whether one replay does what another one does, on the part of the state that `view` shows. -/
def ShowsOn (view : τ → σ) (replay' : List Node → τ → Option (τ × List Node))
    (replay : List Node → σ → Option (σ × List Node)) : Prop :=
  ∀ ns t, replay ns (view t) = (replay' ns t).map fun r => (view r.1, r.2)

section

variable {cutter' : Cutter τ Builder} {view : τ → σ} {cutter : Cutter σ Builder}
  {replay' : List Node → τ → Option (τ × List Node)}
  {replay : List Node → σ → Option (σ × List Node)}

/-- Asking about a head gets the same answer. -/
theorem Shows.ask (h : cutter'.Shows view cutter) (t : τ) (head : Option String) :
    cutter.ask (view t) head = (view (cutter'.ask t head).1, (cutter'.ask t head).2) := by
  cases head with
  | none => rfl
  | some head => simp only [Cutter.ask, h.cut]

/-- What takes the place of a group that is handed over is the same. -/
theorem Shows.replace (h : cutter'.Shows view cutter) (hr : ShowsOn view replay' replay) (g : Node)
    (t : τ) :
    cutter.replace replay g (view t)
      = (cutter'.replace replay' g t).map fun r => (view r.1, r.2) := by
  have hshown := h.paste t (Builder.holding g)
  cases hp : cutter'.paste t (Builder.holding g) with
  | mk t' answer =>
    rw [hp] at hshown
    cases answer with
    | none => rw [replace_of_none hp, replace_of_none hshown, Option.map_some]
    | some answer =>
      rw [replace_of_some hp, replace_of_some hshown, hr, Option.map_map, Option.map_map]
      simp only [Function.comp_def, h.pasted]

mutual

/-- Rewriting a node does the same, on the part of the state that is seen. -/
theorem Shows.rewriteNode (h : cutter'.Shows view cutter) (hr : ShowsOn view replay' replay) :
    ∀ (n : Node) (t : τ), cutter.rewriteNode replay n (view t)
      = (cutter'.rewriteNode replay' n t).map fun r => (view r.1, r.2)
  | .atom _, _ => rfl
  | .comment _, _ => rfl
  | .group d cs l stop, t => by
    simp only [Cutter.rewriteNode, h.ask, Shows.rewriteAll h hr cs, Option.map_bind,
      Option.bind_map, Function.comp_def]
    -- the same groups are wanted, and what was rewritten inside of them is the same
    refine Option.bind_congr fun r _ => ?_
    split
    · exact h.replace hr _ _
    · rfl

/-- So does rewriting nodes one after another. -/
theorem Shows.rewriteAll (h : cutter'.Shows view cutter) (hr : ShowsOn view replay' replay) :
    ShowsOn view (cutter'.rewriteAll replay') (cutter.rewriteAll replay)
  | [], _ => rfl
  | n :: ns, t => by
    simp only [Cutter.rewriteAll, Shows.rewriteNode h hr n, Shows.rewriteAll h hr ns,
      Option.map_bind, Option.bind_map, Function.comp_def, Option.map_map]

end

/-- **A rewrite** does the same, on the part of the state that is seen. -/
theorem Shows.rewrite (h : cutter'.Shows view cutter) (levels : Nat) :
    ShowsOn view (cutter'.rewrite levels) (cutter.rewrite levels) := by
  induction levels with
  | zero => exact h.rewriteAll fun _ _ => rfl
  | succ levels ih => exact h.rewriteAll ih

end

end Cutter

/-! ### Runs -/

namespace Cutout

/-- The cutout with what is seen of the state of its cutter. -/
def seen (view : τ → σ) (c : Cutout τ β) : Cutout σ β :=
  { state := view c.state
    sent := c.sent
    frames := c.frames
    pending := c.pending
    here := c.here }

/-- The state of the cutter has no part in counting brackets. -/
theorem deepen_seen (view : τ → σ) (c : Cutout τ β) :
    (c.seen view).deepen = c.deepen.seen view := by
  cases h : c.frames <;> simp [deepen, seen, h]

variable [Sink β]

/-- Nor has it in passing events on. -/
theorem pass_seen (view : τ → σ) (c : Cutout τ β) (es : List Event) :
    (c.seen view).pass es = (c.pass es).seen view := by
  cases h : c.frames <;> simp [pass, seen, h]

/-- Nor in sending an event with a location. -/
theorem send_seen (view : τ → σ) (c : Cutout τ β) (l : Location) (e : Event) :
    (c.seen view).send l e = (c.send l e).seen view := by
  rw [send_eq_pass, send_eq_pass, pass_seen]

/-- Nor in releasing a bracket that is held back. -/
theorem release_seen (view : τ → σ) (c : Cutout τ β) :
    (c.seen view).release = c.release.seen view := by
  cases hp : c.pending with
  | none => rw [release_of_none hp, release_of_none (show (c.seen view).pending = none from hp)]
  | some p =>
    rw [release_of_some hp, release_of_some (show (c.seen view).pending = some p from hp),
      ← pass_seen, ← deepen_seen]
    rfl

end Cutout

namespace Cutter

variable [Sink β] {cutter' : Cutter τ β} {view : τ → σ} {cutter : Cutter σ β}

omit [Sink β] in
/-- When a group closes, the cutter gets the same buffer and gives the same answer. -/
theorem Shows.collected (h : cutter'.Shows view cutter) (c : Cutout τ β) :
    (c.seen view).collected cutter
      = ((c.collected cutter').1.seen view, (c.collected cutter').2) := by
  obtain ⟨state, sent, frames, pending, here⟩ := c
  cases frames with
  | nil => rfl
  | cons f fs =>
    -- only the last bracket of a collected group hands it over
    by_cases hf : 1 < f.depth
    · simp only [Cutout.collected, Cutout.seen, if_pos hf]
    · simp only [Cutout.collected, Cutout.seen, if_neg hf, h.paste]

/-- An event does the same, on the part of the state that is seen. -/
theorem Shows.receive (h : cutter'.Shows view cutter) (c : Cutout τ β) (e : Event) :
    (c.seen view).receive cutter e
      = ((c.receive cutter' e).1.seen view, (c.receive cutter' e).2) := by
  obtain ⟨state, sent, frames, pending, here⟩ := c
  cases e with
  | locate l => rfl
  | opening d =>
    simp only [Cutout.receive, Cutout.release_seen]
    rfl
  | comment t =>
    cases pending with
    | none => exact congrArg (·, none) (Cutout.send_seen view _ here (.comment t))
    | some p => rfl
  | atom v =>
    cases pending with
    | none => exact congrArg (·, none) (Cutout.send_seen view _ here (.atom v))
    | some p =>
      -- the cutter is asked about the head, and the bracket is released into its answer
      simp only [Cutout.receive, Cutout.seen, h.cut]
      let asked : Cutout τ β :=
        { state := (cutter'.cut state v).1, sent
          frames := ((cutter'.cut state v).2.map fun buffer => { buffer }).toList ++ frames
          pending := some p, here }
      show ((asked.seen view).release.send here (.atom v), none) = _
      rw [Cutout.release_seen, Cutout.send_seen]
      rfl
  | closing d =>
    simp only [Cutout.receive, Cutout.release_seen]
    show ((Cutout.seen view _).send here (.closing d)).collected cutter = _
    rw [Cutout.send_seen, h.collected]

/-- A run does the same, if the runs of the answers do. -/
private theorem Shows.feed_of (h : cutter'.Shows view cutter) (levels : Nat)
    (hl : ∀ (c : Cutout τ β) (answer : List Event),
      Cutout.through cutter levels (c.seen view) answer
        = (Cutout.through cutter' levels c answer).map (Cutout.seen view))
    (c : Cutout τ β) (es : List Event) :
    Cutout.feed cutter levels (c.seen view) es
      = (Cutout.feed cutter' levels c es).map (Cutout.seen view) := by
  -- by induction on the events: an event that gets an answer has the answer go through first
  induction es generalizing c with
  | nil => rw [Cutout.feed_nil, Cutout.feed_nil, Option.map_some]
  | cons e es ih =>
    have hshown := h.receive c e
    cases hr : c.receive cutter' e with
    | mk c' answer =>
      rw [hr] at hshown
      cases answer with
      | none => rw [Cutout.feed_cons_of_none es hshown, Cutout.feed_cons_of_none es hr, ih]
      | some answer =>
        rw [Cutout.feed_cons_of_some es hshown, Cutout.feed_cons_of_some es hr, hl,
          Option.bind_map, Option.map_bind]
        refine Option.bind_congr fun c'' _ => ?_
        -- the cutter is told the same, and the other events follow
        have hpasted := ih { c'' with state := cutter'.pasted c''.state }
        simpa only [Cutout.seen, Function.comp_apply, h.pasted] using hpasted

/-- Events do the same, on the part of the state that is seen, for any number of levels. -/
theorem Shows.feed (h : cutter'.Shows view cutter) (levels : Nat) (c : Cutout τ β)
    (es : List Event) :
    Cutout.feed cutter levels (c.seen view) es
      = (Cutout.feed cutter' levels c es).map (Cutout.seen view) := by
  induction levels generalizing c es with
  | zero => exact h.feed_of 0 (fun c answer => rfl) c es
  | succ levels ih => exact h.feed_of (levels + 1) ih c es

/-- **A run** does the same, on the part of the state that is seen. -/
theorem Shows.run (h : cutter'.Shows view cutter) (levels : Nat) (t : τ) (es : List Event) :
    cutter.run levels (view t) es
      = (cutter'.run levels t es).map fun r => (view r.1, r.2) := by
  have hfeed : Cutout.feed cutter levels { state := view t } es
      = (Cutout.feed cutter' levels { state := t } es).map (Cutout.seen view) :=
    h.feed levels { state := t } es
  rw [Cutter.run, Cutter.run, hfeed, Option.map_map, Option.map_map]
  refine congrArg (Option.map · _) (funext fun c => ?_)
  exact Prod.ext rfl (congrArg (fun c => c.sent.reverse) (Cutout.release_seen view c))

end Cutter

/-! ### Steps -/

/-- The moment with what is seen of the state of the cutter. -/
def Moment.seen (view : τ → σ) (m : Moment τ β) : Moment σ β := ⟨m.cutout.seen view, m.tasks⟩

/-- **A step** does the same, on the part of the state that is seen. -/
theorem Cutter.Shows.next? [Sink β] {cutter' : Cutter τ β} {view : τ → σ} {cutter : Cutter σ β}
    (h : cutter'.Shows view cutter) (m : Moment τ β) :
    (m.seen view).next? cutter = (m.next? cutter').map (Moment.seen view) := by
  obtain ⟨c, ts⟩ := m
  match ts with
  | [] => rfl
  | .pasted :: ts => simp only [Moment.next?, Moment.seen, Cutout.seen, h.pasted, Option.map_some]
  | .event e :: ts =>
    have hshown := h.receive c e
    cases hr : c.receive cutter' e with
    | mk c' answer =>
      rw [hr] at hshown
      cases answer <;> simp only [Moment.next?, Moment.seen, hshown, hr, Option.map_some]

end Formwork
