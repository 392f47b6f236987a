import Mathlib.Logic.Relation
import Formwork.Cutout

namespace Formwork

/-!
# The moments of a run

A run of a cutout taken step by step: a moment is the cutout together with what is still to go
through. Unlike `Cutout.feed` the steps need no number of levels, so a run that never ends has
moments too.

* `Cutout.feed_leads` — a result of `feed` is reached step by step.
* `Cutter.Tracks` — a stack in the state of a cutter that an answer is put on while it goes through.
  It is the same after a run as before (`Cutter.Tracks.feed`).
* `Cutter.Tracks.exists_feed` — if the stack stays bounded at all moments, the run ends, and as many
  levels as the bound are enough.
* `Moment.exists_bound` — conversely, in a run that ends everything is bounded; hence a run has a
  result exactly when it comes to a last moment (`Cutter.Tracks.exists_run_iff`).
* `Cutter.Keeps.leads` — what every answer of a cutter keeps holds at all moments.
-/

variable {σ β α : Type}

/-- Something that is still to be done in a run. -/
inductive Task where
  /-- An event has to go through. -/
  | event (e : Event)
  /-- The cutter has to be told that its answer has gone through. -/
  | pasted

/-- A moment of a run. -/
structure Moment (σ β : Type) where
  cutout : Cutout σ β
  tasks : List Task

namespace Moment

variable [Sink β]

/-- The next moment, if something is still to be done. -/
def next? (cutter : Cutter σ β) (m : Moment σ β) : Option (Moment σ β) :=
  match m.tasks with
  | [] => none
  | .pasted :: ts =>
    some { cutout := { m.cutout with state := cutter.pasted m.cutout.state }, tasks := ts }
  | .event e :: ts =>
    match m.cutout.receive cutter e with
    | (c, none) => some { cutout := c, tasks := ts }
    | (c, some answer) => some { cutout := c, tasks := answer.map .event ++ .pasted :: ts }

/-- One step tells the cutter that its answer has gone through, or takes in an event. -/
theorem cutout_next? {cutter : Cutter σ β} {m m' : Moment σ β} (h : m.next? cutter = some m') :
    (∃ ts, m.tasks = .pasted :: ts) ∧
        m'.cutout = { m.cutout with state := cutter.pasted m.cutout.state } ∨
      ∃ e ts, m.tasks = .event e :: ts ∧ m'.cutout = (m.cutout.receive cutter e).1 := by
  obtain ⟨c, ts⟩ := m
  match ts with
  | [] => simp [next?] at h
  | .pasted :: ts =>
    obtain rfl := Option.some.inj h
    exact .inl ⟨⟨ts, rfl⟩, rfl⟩
  | .event e :: ts =>
    refine .inr ⟨e, ts, rfl, ?_⟩
    cases hr : c.receive cutter e with
    | mk c' answer =>
      cases answer <;>
      · simp only [next?, hr, Option.some.injEq] at h
        subst h
        rfl

/-- The first moment of letting events go through. -/
def start (s : σ) (es : List Event) : Moment σ β :=
  { cutout := { state := s }, tasks := es.map .event }

/-- Whether the run comes from one moment to another. -/
def Leads (cutter : Cutter σ β) : Moment σ β → Moment σ β → Prop :=
  Relation.ReflTransGen fun m m' => m.next? cutter = some m'

/-- The moment some steps later, if the run goes on for so long. -/
def later? (cutter : Cutter σ β) : Nat → Moment σ β → Option (Moment σ β)
  | 0, m => some m
  | n + 1, m => (m.next? cutter).bind (later? cutter n)

theorem leads_later? {cutter : Cutter σ β} {n : Nat} {m m' : Moment σ β}
    (h : m.later? cutter n = some m') : Leads cutter m m' := by
  induction n generalizing m with
  | zero =>
    obtain rfl : m = m' := Option.some.inj h
    exact .refl
  | succ n ih =>
    obtain ⟨k, hk, h⟩ := Option.bind_eq_some_iff.mp h
    exact .head hk (ih h)

/-- Everything that is measured along a run that ends is bounded. -/
theorem exists_bound {cutter : Cutter σ β} (f : Moment σ β → Nat) {m last : Moment σ β}
    (h : Leads cutter m last) (hlast : last.tasks = []) :
    ∃ bound, ∀ m', Leads cutter m m' → f m' ≤ bound := by
  -- there is only one next moment, so what comes later comes on the way to the last one
  induction h using Relation.ReflTransGen.head_induction_on with
  | refl =>
    refine ⟨f last, fun m' hm' => ?_⟩
    rcases hm'.cases_head with rfl | ⟨k, hk, -⟩
    · exact Nat.le_refl _
    · simp [next?, hlast] at hk
  | @head a b hstep _ ih =>
    obtain ⟨bound, hbound⟩ := ih
    refine ⟨max (f a) bound, fun m' hm' => ?_⟩
    rcases hm'.cases_head with rfl | ⟨k, hk, hkm⟩
    · exact Nat.le_max_left _ _
    · obtain rfl : b = k := Option.some.inj (hstep.symm.trans hk)
      exact Nat.le_trans (hbound m' hkm) (Nat.le_max_right _ _)

end Moment

/-! ### Steps and levels -/

namespace Cutout

variable [Sink β] {cutter : Cutter σ β}

/-- How answers go through when no more than `levels` of them may go through at once. -/
def through (cutter : Cutter σ β) : Nat → Cutout σ β → List Event → Option (Cutout σ β)
  | 0 => fun _ _ => none
  | levels + 1 => feed cutter levels

theorem feed_eq_foldlM (levels : Nat) (c : Cutout σ β) (es : List Event) :
    feed cutter levels c es = es.foldlM (advance cutter (through cutter levels)) c := by
  cases levels <;> rfl

theorem feed_nil (levels : Nat) (c : Cutout σ β) : feed cutter levels c [] = some c := by
  rw [feed_eq_foldlM]
  rfl

/-- The first event of a run that gets no answer. -/
theorem feed_cons_of_none {levels : Nat} {c c' : Cutout σ β} {e : Event} (es : List Event)
    (h : c.receive cutter e = (c', none)) :
    feed cutter levels c (e :: es) = feed cutter levels c' es := by
  rw [feed_eq_foldlM, feed_eq_foldlM, List.foldlM_cons, advance, h]
  rfl

/-- The first event of a run that gets an answer. -/
theorem feed_cons_of_some {levels : Nat} {c c' : Cutout σ β} {e : Event} {answer : List Event}
    (es : List Event) (h : c.receive cutter e = (c', some answer)) :
    feed cutter levels c (e :: es)
      = (through cutter levels c' answer).bind fun c'' =>
          feed cutter levels { c'' with state := cutter.pasted c''.state } es := by
  rw [feed_eq_foldlM, List.foldlM_cons, advance, h]
  simp only [feed_eq_foldlM]
  cases through cutter levels c' answer <;> rfl

/-- A result is reached step by step, if those of the answers are. -/
private theorem feed_leads_of {levels : Nat} {c c' : Cutout σ β} {es : List Event}
    (h : feed cutter levels c es = some c')
    (hl : ∀ c c' answer ts, through cutter levels c answer = some c' →
      Moment.Leads cutter ⟨c, answer.map .event ++ ts⟩ ⟨c', ts⟩) (ts : List Task) :
    Moment.Leads cutter ⟨c, es.map .event ++ ts⟩ ⟨c', ts⟩ := by
  induction es generalizing c with
  | nil =>
    obtain rfl : c = c' := by simpa [feed_nil] using h
    exact .refl
  | cons e es ih =>
    cases hr : c.receive cutter e with
    | mk c₁ answer =>
      cases answer with
      | none =>
        rw [feed_cons_of_none es hr] at h
        exact .head (by simp [Moment.next?, hr]) (ih h)
      | some answer =>
        rw [feed_cons_of_some es hr] at h
        obtain ⟨c₂, hc₂, h⟩ := Option.bind_eq_some_iff.mp h
        -- the answer goes through first, then the cutter is told, then the other events follow
        have hanswer := hl c₁ c₂ answer (.pasted :: (es.map .event ++ ts)) hc₂
        have hpasted := ih h
        exact .head (by simp [Moment.next?, hr]) (hanswer.trans (.head rfl hpasted))

/-- A result is reached step by step. -/
theorem feed_leads {levels : Nat} {c c' : Cutout σ β} {es : List Event}
    (h : feed cutter levels c es = some c') (ts : List Task) :
    Moment.Leads cutter ⟨c, es.map .event ++ ts⟩ ⟨c', ts⟩ := by
  induction levels generalizing c c' es ts with
  | zero => exact feed_leads_of h (by simp [through]) ts
  | succ levels ih =>
    exact feed_leads_of h (fun _ _ _ ts hanswer => ih hanswer ts) ts

/-- The result of an answer is reached step by step. -/
theorem through_leads {levels : Nat} {c c' : Cutout σ β} {answer : List Event}
    (h : through cutter levels c answer = some c') (ts : List Task) :
    Moment.Leads cutter ⟨c, answer.map .event ++ ts⟩ ⟨c', ts⟩ := by
  cases levels with
  | zero => simp [through] at h
  | succ levels => exact feed_leads h ts

/-! ### What an event does to the state -/

theorem state_send (c : Cutout σ β) (l : Location) (e : Event) : (c.send l e).state = c.state := by
  cases h : c.frames <;> simp [send, h]

theorem state_release (c : Cutout σ β) : c.release.state = c.state := by
  have hfold : ∀ (cs : List (Location × String)) (c : Cutout σ β),
      (cs.foldl (fun c comment => c.send comment.1 (.comment comment.2)) c).state = c.state := by
    intro cs
    induction cs with
    | nil => exact fun c => rfl
    | cons k cs ih => exact fun c => (ih _).trans (state_send c _ _)
  cases hp : c.pending with
  | none => simp [release, hp]
  | some p =>
    simp only [release, hp, hfold, state_send]
    cases c.frames <;> simp [deepen]

/-- The cutout when a closing bracket has been passed on, and before a group is handed over. -/
def closed (c : Cutout σ β) (d : Delim) : Cutout σ β := c.release.send c.here (.closing d)

theorem state_closed (c : Cutout σ β) (d : Delim) : (c.closed d).state = c.state := by
  rw [closed, state_send, state_release]

/-- The closing bracket of the group that is being collected hands the group over. -/
theorem receive_closed (cutter : Cutter σ β) {c : Cutout σ β} {d : Delim} {f : Frame β}
    {fs : List (Frame β)} (hframes : (c.closed d).frames = f :: fs) (hdepth : f.depth ≤ 1) :
    c.receive cutter (.closing d)
      = ({ c.closed d with state := (cutter.paste c.state f.buffer).1, frames := fs },
          (cutter.paste c.state f.buffer).2) := by
  have hlast : ¬1 < f.depth := by omega
  show (c.closed d).collected cutter = _
  simp only [collected, hframes, state_closed, if_neg hlast]

/-- An event leaves the state of the cutter alone, or the cutter is asked about a head, or a group
    closes that is being collected, and is handed over (`receive_closed`). -/
theorem receive_cases (cutter : Cutter σ β) (c : Cutout σ β) (e : Event) :
    ((c.receive cutter e).2 = none ∧ (c.receive cutter e).1.state = c.state) ∨
      (∃ head, (c.receive cutter e).2 = none ∧
        (c.receive cutter e).1.state = (cutter.cut c.state head).1) ∨
      ∃ d f fs, e = .closing d ∧ (c.closed d).frames = f :: fs ∧ f.depth ≤ 1 := by
  -- only an atom behind an opening asks the cutter, and only a closing can end a buffer
  cases e with
  | locate l => exact .inl ⟨rfl, rfl⟩
  | opening d => exact .inl ⟨rfl, state_release c⟩
  | comment t => cases hp : c.pending <;> simp [receive, hp, state_send]
  | atom v =>
    cases hp : c.pending with
    | none => exact .inl (by simp [receive, hp, state_send])
    | some p =>
      refine .inr (.inl ⟨v, ?_⟩)
      simp [receive, hp, state_send, state_release]
  | closing d =>
    cases hframes : (c.closed d).frames with
    | nil =>
      left
      show ((c.closed d).collected cutter).2 = none ∧
        ((c.closed d).collected cutter).1.state = c.state
      simp only [collected, hframes, state_closed, and_self]
    | cons f fs =>
      by_cases hdepth : f.depth ≤ 1
      · exact .inr (.inr ⟨d, f, fs, rfl, hframes, hdepth⟩)
      · have hinner : 1 < f.depth := Nat.lt_of_not_le hdepth
        left
        show ((c.closed d).collected cutter).2 = none ∧
          ((c.closed d).collected cutter).1.state = c.state
        simp only [collected, hframes, if_pos hinner, state_closed, and_self]

end Cutout

/-! ### Stacks -/

namespace Cutter

/-- Whether a stack in the state says which answers are going through: each answer puts an entry on
    it, which is taken off when the answer has gone through. -/
structure Tracks (cutter : Cutter σ β) (stack : σ → List α) : Prop where
  cut : ∀ s head, stack (cutter.cut s head).1 = stack s
  refused : ∀ s b, (cutter.paste s b).2 = none → stack (cutter.paste s b).1 = stack s
  answered : ∀ s b es, (cutter.paste s b).2 = some es →
    ∃ a, stack (cutter.paste s b).1 = a :: stack s
  pasted : ∀ s, stack (cutter.pasted s) = (stack s).tail

namespace Tracks

variable [Sink β] {cutter : Cutter σ β} {stack : σ → List α}

/-- An event without an answer leaves the stack alone. -/
theorem receive_none (h : cutter.Tracks stack) {c c' : Cutout σ β} {e : Event}
    (hr : c.receive cutter e = (c', none)) : stack c'.state = stack c.state := by
  obtain ⟨-, hs⟩ | ⟨head, -, hs⟩ | ⟨d, f, fs, rfl, hframes, hdepth⟩ :=
    Cutout.receive_cases cutter c e
  · rw [hr] at hs
    rw [hs]
  · rw [hr] at hs
    rw [hs, h.cut]
  · rw [Cutout.receive_closed cutter hframes hdepth, Prod.mk.injEq] at hr
    rw [← hr.1, h.refused _ _ hr.2]

/-- An event with an answer puts one entry on the stack. -/
theorem receive_some (h : cutter.Tracks stack) {c c' : Cutout σ β} {e : Event}
    {answer : List Event} (hr : c.receive cutter e = (c', some answer)) :
    ∃ a, stack c'.state = a :: stack c.state := by
  obtain ⟨ha, -⟩ | ⟨head, ha, -⟩ | ⟨d, f, fs, rfl, hframes, hdepth⟩ :=
    Cutout.receive_cases cutter c e
  · rw [hr] at ha
    exact absurd ha (by simp)
  · rw [hr] at ha
    exact absurd ha (by simp)
  · rw [Cutout.receive_closed cutter hframes hdepth, Prod.mk.injEq] at hr
    obtain ⟨a, hb⟩ := h.answered _ _ _ hr.2
    exact ⟨a, by rw [← hr.1, hb]⟩

/-- The stack is the same after a run as before, if it is after those of the answers. -/
private theorem feed_of (h : cutter.Tracks stack) {levels : Nat} {c c' : Cutout σ β}
    {es : List Event} (hf : Cutout.feed cutter levels c es = some c')
    (hl : ∀ c c' answer, Cutout.through cutter levels c answer = some c' →
      stack c'.state = stack c.state) :
    stack c'.state = stack c.state := by
  induction es generalizing c with
  | nil =>
    obtain rfl : c = c' := by simpa [Cutout.feed_nil] using hf
    rfl
  | cons e es ih =>
    cases hr : c.receive cutter e with
    | mk c₁ answer =>
      -- an answer is played on a level of its own, which leaves the stack as it was when it is done
      cases answer with
      | none =>
        rw [Cutout.feed_cons_of_none es hr] at hf
        rw [ih hf, h.receive_none hr]
      | some answer =>
        rw [Cutout.feed_cons_of_some es hr] at hf
        obtain ⟨c₂, hc₂, hf⟩ := Option.bind_eq_some_iff.mp hf
        obtain ⟨a, ha⟩ := h.receive_some hr
        rw [ih hf, h.pasted, hl c₁ c₂ answer hc₂, ha, List.tail_cons]

/-- **Every push is paired with a pop.** The stack is the same after a run as before. -/
theorem feed (h : cutter.Tracks stack) {levels : Nat} {c c' : Cutout σ β} {es : List Event}
    (hf : Cutout.feed cutter levels c es = some c') : stack c'.state = stack c.state := by
  induction levels generalizing c c' es with
  | zero => exact h.feed_of hf (by simp [Cutout.through])
  | succ levels ih => exact h.feed_of hf fun _ _ _ hanswer => ih hanswer

/-- The stack is the same after an answer as before. -/
theorem through (h : cutter.Tracks stack) {levels : Nat} {c c' : Cutout σ β}
    {answer : List Event} (ht : Cutout.through cutter levels c answer = some c') :
    stack c'.state = stack c.state := by
  cases levels with
  | zero => simp [Cutout.through] at ht
  | succ levels => exact h.feed ht

/-- A run ends if the stack stays bounded at all its moments, provided the answers do. -/
private theorem exists_feed_of (h : cutter.Tracks stack) {bound : Nat} (levels : Nat)
    (hl : ∀ c answer ts,
      (∀ m, Moment.Leads cutter ⟨c, answer.map .event ++ ts⟩ m →
        (stack m.cutout.state).length ≤ bound) →
      bound + 1 ≤ levels + (stack c.state).length →
      ∃ c', Cutout.through cutter levels c answer = some c')
    {c : Cutout σ β} {es : List Event} {ts : List Task}
    (hb : ∀ m, Moment.Leads cutter ⟨c, es.map .event ++ ts⟩ m →
      (stack m.cutout.state).length ≤ bound)
    (hc : bound ≤ levels + (stack c.state).length) :
    ∃ c', Cutout.feed cutter levels c es = some c' := by
  induction es generalizing c with
  | nil => exact ⟨c, Cutout.feed_nil levels c⟩
  | cons e es ih =>
    cases hr : c.receive cutter e with
    | mk c₁ answer =>
      cases answer with
      | none =>
        rw [Cutout.feed_cons_of_none es hr]
        refine ih (fun m hm => hb m (.head (by simp [Moment.next?, hr]) hm)) ?_
        rwa [h.receive_none hr]
      | some answer =>
        obtain ⟨a, ha⟩ := h.receive_some hr
        -- the moments of the answer are moments of the whole run
        have hb₁ : ∀ m, Moment.Leads cutter
            ⟨c₁, answer.map .event ++ .pasted :: (es.map .event ++ ts)⟩ m →
              (stack m.cutout.state).length ≤ bound :=
          fun m hm => hb m (.head (by simp [Moment.next?, hr]) hm)
        obtain ⟨c₂, hc₂⟩ := hl c₁ answer _ hb₁ (by rw [ha, List.length_cons]; omega)
        rw [Cutout.feed_cons_of_some es hr, hc₂, Option.bind_some]
        -- and so are those after it, where the stack is back to what it was
        have hleads : Moment.Leads cutter ⟨c, .event e :: (es.map .event ++ ts)⟩
            ⟨{ c₂ with state := cutter.pasted c₂.state }, es.map .event ++ ts⟩ :=
          .head (by simp [Moment.next?, hr])
            ((Cutout.through_leads hc₂ (.pasted :: (es.map .event ++ ts))).trans (.head rfl .refl))
        have hstack : stack (cutter.pasted c₂.state) = stack c.state := by
          rw [h.pasted, h.through hc₂, ha, List.tail_cons]
        exact ih (fun m hm => hb m (hleads.trans hm)) (by rwa [hstack])

/-- **A bounded stack ends the run.** If the stack has no more than `bound` entries at every moment,
    the run ends, and as many levels as are missing to `bound` are enough. -/
theorem exists_feed (h : cutter.Tracks stack) {bound levels : Nat} {c : Cutout σ β}
    {es : List Event} {ts : List Task}
    (hb : ∀ m, Moment.Leads cutter ⟨c, es.map .event ++ ts⟩ m →
      (stack m.cutout.state).length ≤ bound)
    (hc : bound ≤ levels + (stack c.state).length) :
    ∃ c', Cutout.feed cutter levels c es = some c' := by
  induction levels generalizing c es ts with
  | zero =>
    -- an answer would put one entry too many on the stack
    refine h.exists_feed_of 0 (fun c answer ts hanswer hfull => ?_) hb hc
    have := hanswer _ .refl
    simp only at this
    omega
  | succ levels ih =>
    exact h.exists_feed_of (levels + 1)
      (fun c answer ts hanswer hfull => ih hanswer (by omega)) hb hc

/-- A run from the start ends, with as many levels as the stack may grow by. -/
theorem exists_feed_start (h : cutter.Tracks stack) {bound levels : Nat} {s : σ} {es : List Event}
    (hb : ∀ m : Moment σ β, Moment.Leads cutter (.start s es) m →
      (stack m.cutout.state).length ≤ bound)
    (hs : bound ≤ levels + (stack s).length) :
    ∃ c', Cutout.feed cutter levels ({ state := s } : Cutout σ β) es = some c' := by
  have hstart : (.start s es : Moment σ β) = ⟨{ state := s }, es.map .event ++ []⟩ := by
    rw [List.append_nil]
    rfl
  rw [hstart] at hb
  exact h.exists_feed hb hs

/-- A run has a result for some number of levels exactly when it comes to a moment with nothing left
    to do. -/
theorem exists_run_iff (h : cutter.Tracks stack) (s : σ) (es : List Event) :
    (∃ levels, (cutter.run levels s es).isSome) ↔
      ∃ last : Moment σ β, Moment.Leads cutter (.start s es) last ∧ last.tasks = [] := by
  constructor
  · rintro ⟨levels, hrun⟩
    rw [run, Option.isSome_map] at hrun
    obtain ⟨c, hc⟩ := Option.isSome_iff_exists.mp hrun
    have hleads := Cutout.feed_leads hc []
    rw [List.append_nil] at hleads
    exact ⟨⟨c, []⟩, hleads, rfl⟩
  · rintro ⟨last, hleads, hdone⟩
    obtain ⟨bound, hb⟩ :=
      Moment.exists_bound (fun m => (stack m.cutout.state).length) hleads hdone
    obtain ⟨c, hc⟩ := h.exists_feed_start hb (Nat.le_add_right _ _)
    exact ⟨bound, by rw [run, hc]; rfl⟩

end Tracks

/-! ### Invariants -/

/-- Whether everything a cutter is asked keeps a property of the state. -/
structure Keeps (cutter : Cutter σ β) (Inv : σ → Prop) : Prop where
  cut : ∀ s head, Inv s → Inv (cutter.cut s head).1
  paste : ∀ s b, Inv s → Inv (cutter.paste s b).1
  pasted : ∀ s, Inv s → Inv (cutter.pasted s)

namespace Keeps

variable [Sink β] {cutter : Cutter σ β} {Inv : σ → Prop}

/-- One step keeps the property. -/
theorem next? (h : cutter.Keeps Inv) {m m' : Moment σ β} (hn : m.next? cutter = some m')
    (hm : Inv m.cutout.state) : Inv m'.cutout.state := by
  obtain ⟨-, hm'⟩ | ⟨e, -, -, hm'⟩ := Moment.cutout_next? hn <;> rw [hm']
  · exact h.pasted _ hm
  · obtain ⟨-, hs⟩ | ⟨head, -, hs⟩ | ⟨d, f, fs, rfl, hframes, hdepth⟩ :=
      Cutout.receive_cases cutter m.cutout e
    · rwa [hs]
    · rw [hs]
      exact h.cut _ _ hm
    · rw [Cutout.receive_closed cutter hframes hdepth]
      exact h.paste _ _ hm

/-- The property holds at every moment of a run, if it does at the first one. -/
theorem leads (h : cutter.Keeps Inv) {m m' : Moment σ β} (hl : Moment.Leads cutter m m')
    (hm : Inv m.cutout.state) : Inv m'.cutout.state := by
  induction hl with
  | refl => exact hm
  | tail _ hstep ih => exact h.next? hstep ih

end Keeps

end Cutter

end Formwork
