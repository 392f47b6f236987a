import Formwork.Expander
import Formwork.Proofs.Cutout.Accounts

namespace Formwork

/-!
# Any events are safe

A cutout takes in any events, well nested or not, and whatever the cutter answers. At each moment
every group that is being collected has a bracket open, so counting a closing bracket never falls
below zero; the cutter is asked about heads only; and each event that was received is passed on or
waits.

* `Cutout.depth_receive` — every group that is being collected has a bracket open.
* `Cutout.of_asked` — when the cutter is asked.
* `Moment.Takes` — the events that a run takes in on its way.
* `Cutter.moments_safe` — what holds at all moments of a run, and after the last one.
-/

variable {σ β : Type}

namespace Cutout

variable [Sink β]

/-! ### Brackets that are open -/

/-- A group that was just cut out has no bracket open in its buffer, until its own is released. -/
theorem depth_release {c : Cutout σ β} {p : PendingOpen} (hp : c.pending = some p)
    (h : ∀ f ∈ c.frames.tail, 0 < f.depth) : ∀ f ∈ c.release.frames, 0 < f.depth := by
  have htail : ∀ f ∈ ({ c with pending := none } : Cutout σ β).frames.tail, 0 < f.depth := h
  rw [release_of_some hp]
  exact depth_pass (depth_deepen htail) _

theorem depth_release_of_all {c : Cutout σ β} (h : ∀ f ∈ c.frames, 0 < f.depth) :
    ∀ f ∈ c.release.frames, 0 < f.depth := by
  cases hp : c.pending with
  | none => rwa [release_of_none hp]
  | some p => exact depth_release hp fun f hf => h f (List.mem_of_mem_tail hf)

/-- A closing bracket closes a bracket that is open in the buffer that it goes to. -/
theorem depth_closed {c : Cutout σ β} (h : ∀ f ∈ c.frames, 0 < f.depth) (d : Delim) :
    ∀ f ∈ (c.closed d).frames, 0 < f.depth := by
  rw [closed, send_eq_pass]
  exact depth_pass (depth_release_of_all h) _

omit [Sink β] in
theorem depth_collected (cutter : Cutter σ β) {c : Cutout σ β} (h : ∀ f ∈ c.frames, 0 < f.depth) :
    ∀ f ∈ (c.collected cutter).1.frames, 0 < f.depth := by
  cases hframes : c.frames with
  | nil => simp [collected, hframes]
  | cons f fs =>
    rw [hframes, List.forall_mem_cons] at h
    by_cases hdepth : 1 < f.depth
    · simp only [collected, hframes, if_pos hdepth, List.forall_mem_cons]
      exact ⟨Nat.sub_pos_of_lt hdepth, h.2⟩
    · simp only [collected, hframes, if_neg hdepth]
      exact h.2

/-- **Every group that is being collected has a bracket open**, whatever event comes. -/
theorem depth_receive (cutter : Cutter σ β) {c : Cutout σ β} (h : ∀ f ∈ c.frames, 0 < f.depth)
    (e : Event) : ∀ f ∈ (c.receive cutter e).1.frames, 0 < f.depth := by
  cases e with
  | locate l => exact h
  | opening d => exact depth_release_of_all h
  | comment t =>
    cases hp : c.pending with
    | none =>
      simp only [receive, hp, send_eq_pass]
      exact depth_pass h _
    | some p =>
      simp only [receive, hp]
      exact h
  | atom v =>
    cases hp : c.pending with
    | none =>
      simp only [receive, hp, send_eq_pass]
      exact depth_pass h _
    | some p =>
      rw [receive_atom_of_some cutter hp, send_eq_pass]
      have hheaded : (c.headed cutter v).pending = some p := hp
      refine depth_pass (depth_release hheaded fun f hf => h f ?_) _
      unfold headed at hf
      -- a buffer that is opened here gets its depth from the opening that is released into it
      cases hbuffer : (cutter.cut c.state v).2 with
      | none =>
        rw [hbuffer] at hf
        exact List.mem_of_mem_tail hf
      | some b =>
        rw [hbuffer] at hf
        exact hf
  | closing d => exact depth_collected cutter (depth_closed h d)

/-! ### The location of the next event -/

omit [Sink β] in
theorem here_collected (cutter : Cutter σ β) (c : Cutout σ β) :
    (c.collected cutter).1.here = c.here := by
  cases hframes : c.frames with
  | nil => simp only [collected, hframes]
  | cons f fs =>
    simp only [collected, hframes]
    split <;> rfl

/-- An event is placed by the location that came last. -/
theorem here_receive (cutter : Cutter σ β) (c : Cutout σ β) (e : Event) :
    (c.receive cutter e).1.here = e.hereAfter c.here := by
  cases e with
  | locate l => rfl
  | opening d => exact here_release c
  | comment t =>
    cases hp : c.pending with
    | none => simp only [receive, hp, send_eq_pass, here_pass, Event.hereAfter]
    | some p => simp only [receive, hp, Event.hereAfter]
  | atom v =>
    cases hp : c.pending with
    | none => simp only [receive, hp, send_eq_pass, here_pass, Event.hereAfter]
    | some p =>
      rw [receive_atom_of_some cutter hp, send_eq_pass, here_pass, here_release]
      rfl
  | closing d =>
    show ((c.closed d).collected cutter).1.here = c.here
    rw [here_collected, closed, send_eq_pass, here_pass, here_release]

/-! ### Questions -/

/-- The cutter is asked about atoms only, and only while a bracket waits for its head. -/
theorem of_asked {cutter : Cutter σ β} {c : Cutout (σ × List (Note β)) β} {e : Event}
    {head : String} {given : Option β}
    (h : (c.receive cutter.noting e).1.state.2 = c.state.2 ++ [.asked head given]) :
    e = .atom head ∧ ∃ p, c.pending = some p := by
  -- every other event adds no note, or the note of a buffer that is handed over
  have hmore : c.state.2 ≠ c.state.2 ++ [.asked head given] := by simp
  cases e with
  | locate l => exact absurd h hmore
  | opening d => exact absurd ((congrArg Prod.snd (state_release c)).symm.trans h) hmore
  | comment t =>
    cases hp : c.pending with
    | none =>
      simp only [Cutout.receive, hp, state_send] at h
      exact absurd h hmore
    | some p =>
      simp only [Cutout.receive, hp] at h
      exact absurd h hmore
  | atom v =>
    cases hp : c.pending with
    | none =>
      simp only [Cutout.receive, hp, state_send] at h
      exact absurd h hmore
    | some p =>
      rw [receive_atom_of_some cutter.noting hp, state_send, state_release] at h
      have hnote := List.append_cancel_left h
      simp only [List.cons.injEq, Note.asked.injEq] at hnote
      rw [hnote.1.1]
      exact ⟨rfl, p, rfl⟩
  | closing d =>
    have hstate := state_closed c d
    have h : ((c.closed d).collected cutter.noting).1.state.2
        = c.state.2 ++ [.asked head given] := h
    cases hframes : (c.closed d).frames with
    | nil =>
      simp only [Cutout.collected, hframes, hstate] at h
      exact absurd h hmore
    | cons f fs =>
      by_cases hdepth : 1 < f.depth
      · simp only [Cutout.collected, hframes, hstate, if_pos hdepth] at h
        exact absurd h hmore
      · simp only [Cutout.collected, hframes, hstate, if_neg hdepth, Cutter.noting] at h
        cases List.append_cancel_left h

end Cutout

/-- Whether an opening bracket was received, and only comments after it. -/
def Event.AwaitsHead (received : List (Location × Event)) : Prop :=
  ∃ before l d, ∃ comments : List (Location × String),
    received = before ++ (l, .opening d) :: comments.map fun k => (k.1, .comment k.2)

namespace Moment

variable [Sink β]

/-! ### What a run takes in -/

/-- The event that goes through next. -/
def event? (m : Moment σ β) : Option Event :=
  match m.tasks with
  | .event e :: _ => some e
  | _ => none

/-- Whether the run comes from one moment to another, and takes in these events on the way. -/
inductive Takes (cutter : Cutter σ β) (m : Moment σ β) : List Event → Moment σ β → Prop where
  | refl : Takes cutter m [] m
  | step {taken : List Event} {m' m'' : Moment σ β} (h : Takes cutter m taken m')
      (hnext : m'.next? cutter = some m'') : Takes cutter m (taken ++ m'.event?.toList) m''

theorem Leads.exists_takes {cutter : Cutter σ β} {m m' : Moment σ β} (h : Leads cutter m m') :
    ∃ taken, Takes cutter m taken m' := by
  induction h with
  | refl => exact ⟨[], .refl⟩
  | tail _ hnext ih =>
    obtain ⟨taken, ih⟩ := ih
    exact ⟨_, ih.step hnext⟩

/-- A run takes in the same when only a part of the state is seen. -/
theorem takes_seen {τ : Type} {cutter' : Cutter τ β} {view : τ → σ} {cutter : Cutter σ β}
    (h : cutter'.Shows view cutter) {m : Moment τ β} {taken : List Event} {m' : Moment σ β} :
    Takes cutter (m.seen view) taken m' ↔ ∃ n, Takes cutter' m taken n ∧ n.seen view = m' := by
  constructor
  · intro ht
    -- a step that is seen is one of the cutter behind it, and the other way round
    induction ht with
    | refl => exact ⟨m, .refl, rfl⟩
    | step _ hnext ih =>
      obtain ⟨n, hn, rfl⟩ := ih
      rw [h.next?, Option.map_eq_some_iff] at hnext
      obtain ⟨n', hnext, rfl⟩ := hnext
      exact ⟨n', hn.step hnext, rfl⟩
  · rintro ⟨n, hn, rfl⟩
    induction hn with
    | refl => exact .refl
    | @step taken n n' _ hnext ih =>
      have hseen : (n.seen view).next? cutter = some (n'.seen view) := by
        rw [h.next?, hnext, Option.map_some]
      exact ih.step hseen

/-! ### All moments -/

/-- What is right at a moment when events were received. -/
structure Safe (cutter : Cutter σ β) (m : Moment (σ × List (Note β)) β)
    (received : List (Location × Event)) : Prop where
  /-- Every group that is being collected has a bracket open. -/
  depth : ∀ f ∈ m.cutout.frames, 0 < f.depth
  /-- A closing bracket finds one open in the buffer that it has gone to. -/
  closing : ∀ d f fs, (m.cutout.closed d).frames = f :: fs → 0 < f.depth
  /-- The cutter is asked about an atom, and only if it comes after an opening bracket, with nothing
      but comments in between. -/
  asked : ∀ m' head given, m.next? cutter.noting = some m' →
    m'.cutout.state.2 = m.cutout.state.2 ++ [.asked head given] →
      m.event? = some (.atom head) ∧ Event.AwaitsHead received
  /-- Every event was passed on once and where it belongs, or waits. -/
  passed : m.cutout.Accounted received
  /-- If the run ends here, what waits is passed on too. -/
  finished : m.cutout.release.Accounted received ∧ m.cutout.release.held = []

/-- What is kept at all moments of a run. -/
theorem Takes.kept {cutter : Cutter σ β} {s : σ} {es taken : List Event}
    {m : Moment (σ × List (Note β)) β} (h : Takes cutter.noting (.start (s, []) es) taken m) :
    (∀ f ∈ m.cutout.frames, 0 < f.depth) ∧
      m.cutout.here = taken.foldl Event.hereAfter Location.nowhere ∧
      m.cutout.Accounted (Event.located Location.nowhere taken) := by
  induction h with
  | refl =>
    refine ⟨by simp [start], rfl, [], [], [], rfl, rfl, .nil, .nil, .refl _, ?_⟩
    exact fun d hd => absurd hd List.not_mem_nil
  | @step taken m m' _ hnext ih =>
    obtain ⟨hdepth, hhere, haccounted⟩ := ih
    obtain ⟨⟨ts, htasks⟩, hm'⟩ | ⟨e, ts, htasks, hm'⟩ := cutout_next? hnext <;> rw [hm']
    · -- when an answer has gone through, nothing is taken in
      have hevent : m.event? = none := by simp only [event?, htasks]
      rw [hevent, Option.toList_none, List.append_nil]
      obtain ⟨ds, handed, opened, h⟩ := haccounted
      exact ⟨hdepth, hhere, ds, handed, opened, h.of_same rfl rfl rfl h.received⟩
    · have hevent : m.event? = some e := by simp only [event?, htasks]
      rw [hevent, Option.toList_some, List.foldl_append, Event.located_append, ← hhere]
      exact ⟨Cutout.depth_receive cutter.noting hdepth e, Cutout.here_receive cutter.noting _ e,
        haccounted.receive cutter e⟩

/-- Every moment of a run is safe. -/
theorem Takes.safe {cutter : Cutter σ β} {s : σ} {es taken : List Event}
    {m : Moment (σ × List (Note β)) β} (h : Takes cutter.noting (.start (s, []) es) taken m) :
    m.Safe cutter (Event.located Location.nowhere taken) := by
  obtain ⟨hdepth, -, haccounted⟩ := h.kept
  refine ⟨hdepth, fun d f fs hframes => ?_, fun m' head given hnext hnote => ?_, haccounted,
    haccounted.release, Cutout.held_release _⟩
  · exact Cutout.depth_closed hdepth d f (hframes ▸ List.mem_cons_self)
  · obtain ⟨-, hm'⟩ | ⟨e, ts, htasks, hm'⟩ := cutout_next? hnext
    · rw [hm'] at hnote
      simp [Cutter.noting] at hnote
    · rw [hm'] at hnote
      obtain ⟨rfl, p, hp⟩ := Cutout.of_asked hnote
      -- what waits was received last, and it is a bracket and comments
      obtain ⟨ds, handed, opened, h⟩ := haccounted
      refine ⟨by simp only [event?, htasks], ds.map Delivery.received, p.location, p.delim,
        p.comments.reverse, ?_⟩
      rw [h.received]
      simp only [Cutout.held, hp]

end Moment

namespace Cutter

/-- **A cutout is safe on any events**, well nested or not, whatever the cutter answers. Taking
    notes changes no step of a run, and all its moments are safe. A run that ends has passed on what
    its last moment passes on in the end, and what is still being collected then is dropped. -/
theorem moments_safe [Sink β] (cutter : Cutter σ β) (s : σ) (es : List Event) :
    (∀ taken m, Moment.Takes cutter (.start s es) taken m ↔
      ∃ noted, Moment.Takes cutter.noting (.start (s, []) es) taken noted ∧
        noted.seen Prod.fst = m) ∧
    (∀ taken m, Moment.Takes cutter.noting (.start (s, []) es) taken m →
      m.Safe cutter (Event.located Location.nowhere taken)) ∧
    ∀ levels r, cutter.run levels s es = some r →
      ∃ taken last, Moment.Takes cutter.noting (.start (s, []) es) taken last ∧ last.tasks = [] ∧
        r = (last.cutout.state.1, last.cutout.release.sent.reverse) := by
  refine ⟨fun taken m => Moment.takes_seen (m := .start (s, []) es) cutter.noting_shows,
    fun taken m h => h.safe, fun levels r hr => ?_⟩
  have hnoting := cutter.noting_shows.run levels (s, []) es
  rw [hr, eq_comm, Option.map_eq_some_iff] at hnoting
  obtain ⟨r, hrun, rfl⟩ := hnoting
  obtain ⟨c, hc, rfl⟩ := Option.map_eq_some_iff.mp hrun
  -- the run passes through moments, the last of which is that of its result
  have hleads := Cutout.feed_leads hc []
  rw [List.append_nil] at hleads
  obtain ⟨taken, ht⟩ := hleads.exists_takes
  exact ⟨taken, ⟨c, []⟩, ht, rfl, rfl⟩

/-- A closing bracket that closes nothing, and two groups that the cutter wants: one that a wrong
    bracket closes, and one that is never closed. -/
theorem moments_safe_broken :
    let x := ({} : Expander).register .concat
    let es : List Event := [.closing .paren, .opening .paren, .comment "c", .atom "concat",
      .atom "a", .closing .bracket, .opening .paren, .atom "concat", .atom "b"]
    ∃ taken last, Moment.Takes Expander.cutter.noting (.start (x, []) es) taken last ∧
      last.Safe Expander.cutter (Event.located .nowhere taken) ∧
      last.cutout.release.sent.reverse
        = [.locate .nowhere, .closing .paren, .locate .nowhere, .atom "a"] := by
  intro x es
  have hsent : (Expander.cutter.run 1 x es).map Prod.snd
      = some [.locate .nowhere, .closing .paren, .locate .nowhere, .atom "a"] := by
    decide +kernel
  obtain ⟨r, hr, hsent⟩ := Option.map_eq_some_iff.mp hsent
  obtain ⟨-, hsafe, hends⟩ := moments_safe Expander.cutter x es
  obtain ⟨taken, last, ht, -, rfl⟩ := hends 1 r hr
  exact ⟨taken, last, ht, hsafe taken last ht, hsent⟩

end Cutter

end Formwork
