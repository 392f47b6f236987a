import Formwork.Proofs.Cutout.Moments
import Formwork.Proofs.Cutout.Simulation

namespace Formwork

/-!
# The moments at which groups are handed over

A group is handed over when its closing bracket comes. At that moment the cutter decides what takes
its place; if this is nothing, the run goes on as if the group had not been there, but for the state
of the cutter.

* `Moment.closing?` — the group that is handed over next, and the moment that comes after it when
  nothing takes its place (`Moment.next?_closing`).
* `Moment.next?_cases` — everything that a step can do to the state of a cutter. Only at such a
  moment is the cutter handed a group.
* `Moment.closing?_wanted` — the group that is handed over has a head that the cutter wants.
-/

variable {σ β : Type}

namespace Cutout

variable [Sink β]

/-! ### Closing brackets -/

/-- No bracket waits for its head any more. -/
theorem pending_closed (c : Cutout σ β) (d : Delim) : (c.closed d).pending = none := by
  rw [closed, send_eq_pass, pending_pass, pending_release]

/-- While a group is being collected, a closing bracket goes into it, and nowhere else. -/
theorem inside_closed {c : Cutout σ β} {d : Delim} (h : (c.closed d).frames ≠ []) :
    (c.closed d).sent = c.sent ∧ (c.closed d).frames.tail = c.frames.tail := by
  obtain ⟨es, hes⟩ : ∃ es, c.closed d = c.pass es ∨
      c.closed d = ({ c with pending := none } : Cutout σ β).deepen.pass es := by
    cases hp : c.pending with
    | none => exact ⟨_, .inl (by rw [closed, send_eq_pass, release_of_none hp])⟩
    | some p => exact ⟨_, .inr (by rw [closed, send_eq_pass, release_of_some hp, pass_pass])⟩
  cases hframes : c.frames with
  | nil => rcases hes with hes | hes <;> simp [hes, pass, deepen, hframes] at h
  | cons f fs => rcases hes with hes | hes <;> simp [hes, pass, deepen, hframes]

end Cutout

namespace Moment

variable [Sink β]

/-! ### Handing over a group -/

/-- The buffer of the group that is handed over next, and the moment that is left when nothing takes
    the place of the group and the cutter does not change. -/
def closing? (m : Moment σ β) : Option (β × Moment σ β) :=
  match m.tasks with
  | .event (.closing d) :: ts =>
    match (m.cutout.closed d).frames with
    | [] => none
    | f :: fs =>
      if f.depth ≤ 1 then
        some (f.buffer, { cutout := { m.cutout.closed d with frames := fs }, tasks := ts })
      else
        none
  | _ => none

variable {m m' rest : Moment σ β} {b : β}

theorem of_closing? (h : m.closing? = some (b, rest)) :
    ∃ d f, m.tasks = .event (.closing d) :: rest.tasks ∧
      (m.cutout.closed d).frames = f :: rest.cutout.frames ∧ f.depth ≤ 1 ∧ f.buffer = b ∧
      rest.cutout = { m.cutout.closed d with frames := rest.cutout.frames } := by
  unfold closing? at h
  split at h
  case h_1 d ts htasks =>
    split at h
    case h_1 => cases h
    case h_2 f fs hframes =>
      split at h
      case isTrue hdepth =>
        cases h
        exact ⟨d, f, htasks, hframes, hdepth, rfl, rfl⟩
      case isFalse => cases h
  case h_2 => cases h

/-- **When the group is dropped**, nothing is passed on, here or to a group around it: what was
    collected goes, and only the closing bracket has been done. -/
theorem dropped_closing? (h : m.closing? = some (b, rest)) :
    rest.cutout.state = m.cutout.state ∧ rest.cutout.sent = m.cutout.sent ∧
      rest.cutout.frames = m.cutout.frames.tail ∧ rest.tasks = m.tasks.tail := by
  obtain ⟨d, f, htasks, hframes, -, -, hrest⟩ := of_closing? h
  have hinside := Cutout.inside_closed (c := m.cutout) (d := d) (by simp [hframes])
  refine ⟨?_, ?_, ?_, ?_⟩
  · rw [hrest]
    exact Cutout.state_closed _ _
  · rw [hrest]
    exact hinside.1
  · rw [← hinside.2, hframes, List.tail_cons]
  · rw [htasks, List.tail_cons]

/-- **When there is no answer**, the group is dropped, and only the cutter has changed. -/
theorem next?_closing {cutter : Cutter σ β} {s : σ} (h : m.closing? = some (b, rest))
    (hpaste : cutter.paste m.cutout.state b = (s, none)) :
    m.next? cutter = some { rest with cutout := { rest.cutout with state := s } } := by
  obtain ⟨d, f, htasks, hframes, hdepth, rfl, hrest⟩ := of_closing? h
  have hreceive := Cutout.receive_closed cutter hframes hdepth
  rw [hpaste] at hreceive
  simp only [next?, htasks, hreceive]
  rw [hrest]

/-- **What a step does to the cutter.** It does not change it, or the cutter is asked about a head,
    or told that an answer has gone through, or handed the group that closes. -/
theorem next?_cases {cutter : Cutter σ β} (h : m.next? cutter = some m') :
    m'.cutout.state = m.cutout.state ∨
      (∃ head, m'.cutout.state = (cutter.cut m.cutout.state head).1) ∨
      m'.cutout.state = cutter.pasted m.cutout.state ∨
      ∃ b rest, m.closing? = some (b, rest) ∧
        m'.cutout.state = (cutter.paste m.cutout.state b).1 := by
  obtain ⟨-, hm'⟩ | ⟨e, ts, htasks, hm'⟩ := cutout_next? h <;> rw [hm']
  · exact .inr (.inr (.inl rfl))
  · obtain ⟨-, hs⟩ | ⟨head, -, hs⟩ | ⟨d, f, fs, rfl, hframes, hdepth⟩ :=
      Cutout.receive_cases cutter m.cutout e
    · exact .inl hs
    · exact .inr (.inl ⟨head, hs⟩)
    · have hclosing : m.closing?
          = some (f.buffer, ⟨{ m.cutout.closed d with frames := fs }, ts⟩) := by
        simp only [closing?, htasks, hframes, if_pos hdepth]
      refine .inr (.inr (.inr ⟨f.buffer, _, hclosing, ?_⟩))
      rw [Cutout.receive_closed cutter hframes hdepth]

end Moment

/-! ### Collecting a group -/

/-- Children that come after the head of a group do not matter for its head. -/
theorem Node.headName?_append {d : Delim} {cs : List Node} {l stop l' stop' : Location}
    {head : String} (h : (Node.group d cs l stop).headName? = some head) (ns : List Node) :
    (Node.group d (cs ++ ns) l' stop').headName? = some head := by
  obtain ⟨first, hfirst, hvalue⟩ := Option.bind_eq_some_iff.mp h
  have hcs : (cs.filter fun c => !c.isComment).head? = some first := hfirst
  have hhead : (Node.group d (cs ++ ns) l' stop').head? = some first := by
    simp only [Node.head?, Node.exprs, Node.children, List.filter_append, List.head?_append, hcs,
      Option.some_or]
  rw [Node.headName?, hhead]
  exact hvalue

namespace Builder

/-- Whether a builder is inside one group with the given head, `depth` groups deep. -/
structure Collects (b : Builder) (head : String) (depth : Nat) : Prop where
  top : b.top = []
  depth_eq : b.groups.length = depth
  led : ∃ g, b.groups.getLast? = some g ∧ ∀ stop, (g.close stop).headName? = some head

variable {b : Builder} {head : String} {depth : Nat}

theorem Collects.at (h : b.Collects head depth) (l : Location) :
    ({ b with here := l }).Collects head depth :=
  ⟨h.top, h.depth_eq, h.led⟩

/-- A node is added to the innermost group; if that is the outermost one, it has its head
    already. -/
theorem Collects.push (h : b.Collects head depth) (n : Node) : (b.push n).Collects head depth := by
  obtain ⟨g, hlast, hhead⟩ := h.led
  have hdepth := h.depth_eq
  cases hgroups : b.groups with
  | nil =>
    rw [hgroups] at hlast
    cases hlast
  | cons first gs =>
    rw [hgroups] at hlast hdepth
    have hpush : b.push n
        = { b with groups := { first with children := n :: first.children } :: gs } := by
      simp only [Builder.push, hgroups]
    rw [hpush]
    refine ⟨h.top, hdepth, ?_⟩
    cases gs with
    -- the only open group is the form itself, whose head stays as its contents grow
    | nil =>
      obtain rfl : first = g := by simpa using hlast
      refine ⟨{ first with children := n :: first.children }, rfl, fun stop => ?_⟩
      rw [OpenGroup.close, List.reverse_cons]
      exact Node.headName?_append (hhead stop) [n]
    | cons second gs => exact ⟨g, by rwa [List.getLast?_cons_cons] at hlast ⊢, hhead⟩

/-- So are several nodes. -/
theorem Collects.feed_eventsAll (h : b.Collects head depth) (ns : List Node) :
    (Sink.feed b (Node.eventsAll ns)).Collects head depth := by
  rw [Builder.feed_eventsAll]
  generalize Node.plainAll ns = ms
  induction ms generalizing b with
  | nil => exact h
  | cons m ms ih => exact ih ((h.push m).at m.stop)

/-- A bracket opens a group inside. -/
theorem Collects.opening (h : b.Collects head depth) (d : Delim) :
    (Sink.receive b (.opening d)).Collects head (depth + 1) := by
  obtain ⟨g, hlast, hhead⟩ := h.led
  have hdepth := h.depth_eq
  refine ⟨h.top, congrArg (· + 1) hdepth, g, ?_, hhead⟩
  show (_ :: b.groups).getLast? = some g
  rw [List.getLast?_cons, hlast]
  rfl

/-- A bracket closes a group inside. -/
theorem Collects.closing (h : b.Collects head depth) (hdepth : 1 < depth) :
    b.close.Collects head (depth - 1) := by
  obtain ⟨g, hlast, hhead⟩ := h.led
  have hlength := h.depth_eq
  match hgroups : b.groups with
  | [] => simp [hgroups] at hlast
  | [first] =>
    rw [hgroups, List.length_singleton] at hlength
    omega
  | first :: second :: gs =>
    rw [hgroups, List.getLast?_cons_cons] at hlast
    rw [hgroups, List.length_cons] at hlength
    have hinner : ({ b with groups := second :: gs } : Builder).Collects head (depth - 1) :=
      ⟨h.top, by simp only; omega, g, hlast, hhead⟩
    rw [Builder.close_of_groups hgroups]
    exact hinner.push _

/-- A bracket closes the group itself, which is all that the builder holds then. -/
theorem Collects.node?_close (h : b.Collects head depth) (hdepth : depth ≤ 1) :
    ∃ form, b.close.node? = some form ∧ form.headName? = some head := by
  obtain ⟨g, hlast, hhead⟩ := h.led
  have hlength := h.depth_eq
  match hgroups : b.groups with
  | [] => simp [hgroups] at hlast
  | [first] =>
    obtain rfl : first = g := by simpa [hgroups] using hlast
    refine ⟨first.close b.here, ?_, hhead b.here⟩
    have hclose : b.close = { b with groups := [], top := [first.close b.here] } := by
      simp only [Builder.close, hgroups, Builder.push, h.top]
    rw [hclose]
    rfl
  | first :: second :: gs =>
    rw [hgroups, List.length_cons, List.length_cons] at hlength
    omega

/-- A group is one with its head from the moment the head comes. -/
theorem collects_opened (d : Delim) (l m : Location) (pc : List Comment) (head : String) :
    (Sink.feed empty (Cutout.opening d l pc ++ [.locate m, .atom head])).Collects head 1 := by
  let ns : List Node := pc.map .comment ++ [.atom (Atom.plain head m)]
  let started : Builder := Sink.feed empty [.locate l, .opening d]
  -- all but the opening are the events of nodes, whose building is known
  have hevents : Cutout.opening d l pc ++ [.locate m, .atom head]
      = [.locate l, .opening d] ++ Node.eventsAll ns := by
    rw [Node.eventsAll_append]
    rfl
  have hplain : Node.plainAll ns = ns := by
    have hcomments : Node.plainAll (pc.map .comment) = pc.map .comment := by
      rw [Node.plainAll_eq_map, List.map_map]
      rfl
    rw [Node.plainAll_append, hcomments]
    rfl
  rw [hevents, Sink.feed_append, Builder.feed_eventsAll, hplain,
    foldl_add_of_groups (b := started) rfl]
  refine ⟨rfl, rfl, _, rfl, fun stop => ?_⟩
  have hchildren : (ns.reverse ++ []).reverse = ns := by simp
  show (Node.group d (ns.reverse ++ []).reverse l stop).headName? = some head
  rw [hchildren, Cutout.headName?_comments]
  rfl

end Builder

/-! ### Groups with a wanted head -/

namespace Cutout

variable {wanted : String → Prop} {c : Cutout σ Builder}

/-- Whether the groups that are being collected have wanted heads. -/
def Led (wanted : String → Prop) (c : Cutout σ Builder) : Prop :=
  ∀ f ∈ c.frames, ∃ head, wanted head ∧ f.buffer.Collects head f.depth

/-- Passing on nodes. -/
theorem Led.pass (h : c.Led wanted) (ns : List Node) : (c.pass (Node.eventsAll ns)).Led wanted := by
  cases hframes : c.frames with
  | nil => simp [Led, Cutout.pass, hframes]
  | cons f fs =>
    rw [Led, hframes, List.forall_mem_cons] at h
    obtain ⟨⟨head, hwanted, hcollects⟩, hfs⟩ := h
    simp only [Led, Cutout.pass, hframes, List.forall_mem_cons]
    exact ⟨⟨head, hwanted, hcollects.feed_eventsAll ns⟩, hfs⟩

/-- Opening a group inside. -/
theorem Led.release (h : c.Led wanted) : c.release.Led wanted := by
  cases hp : c.pending with
  | none => rwa [release_of_none hp]
  | some p =>
    rw [release_of_some hp]
    generalize (p.comments.reverse.map fun k => (⟨k.2, k.1⟩ : Comment)) = pc
    cases hframes : c.frames with
    | nil => simp [Led, Cutout.pass, Cutout.deepen]
    | cons f fs =>
      rw [Led, hframes, List.forall_mem_cons] at h
      obtain ⟨⟨head, hwanted, hcollects⟩, hfs⟩ := h
      simp only [Led, Cutout.pass, Cutout.deepen, List.forall_mem_cons]
      refine ⟨⟨head, hwanted, ?_⟩, hfs⟩
      exact ((hcollects.at p.location).opening p.delim).feed_eventsAll (pc.map .comment)

/-- A group that the cutter wants is collected from its head on. -/
theorem Led.cut (h : c.Led wanted) {p : PendingOpen} (hp : c.pending = some p) {head : String}
    (hwanted : wanted head) (l : Location) :
    (({ c with frames := { buffer := Builder.empty } :: c.frames }).release.send l
      (.atom head)).Led wanted := by
  have hpending : ({ c with frames := { buffer := Builder.empty } :: c.frames }).pending
      = some p := hp
  rw [release_of_some hpending, send_eq_pass, pass_pass]
  generalize (p.comments.reverse.map fun k => (⟨k.2, k.1⟩ : Comment)) = pc
  simp only [Led, Cutout.pass, Cutout.deepen, List.forall_mem_cons]
  exact ⟨⟨head, hwanted, Builder.collects_opened p.delim p.location l pc head⟩, h⟩

/-- **A cutout collects groups with wanted heads** only. -/
theorem Led.receive {cutter : Cutter σ Builder} (hcutter : cutter.OnNodes)
    (hwanted : ∀ s head, (cutter.cut s head).2.isSome → wanted head) (h : c.Led wanted)
    (e : Event) : (c.receive cutter e).1.Led wanted := by
  cases e with
  -- only an atom behind an opening opens a buffer, and only a closing ends one
  | locate l => exact h
  | opening d => exact h.release
  | comment t =>
    cases hp : c.pending with
    | none =>
      simp only [Cutout.receive, hp, send_eq_pass]
      exact h.pass [.comment ⟨t, c.here⟩]
    | some p =>
      simp only [Cutout.receive, hp]
      exact h
  | atom v =>
    cases hp : c.pending with
    | none =>
      simp only [Cutout.receive, hp, send_eq_pass]
      exact h.pass [.atom (Atom.plain v c.here)]
    | some p =>
      cases hcut : cutter.cut c.state v with
      | mk s buffer =>
        cases buffer with
        | none =>
          have hreceive : c.receive cutter (.atom v)
              = (({ c with state := s }).release.send c.here (.atom v), none) := by
            simp only [Cutout.receive, hp, hcut, Option.map_none, Option.toList_none,
              List.nil_append]
          have hstate : ({ c with state := s } : Cutout σ Builder).Led wanted := h
          rw [hreceive, send_eq_pass]
          exact hstate.release.pass [.atom (Atom.plain v c.here)]
        | some buffer =>
          have hyes : (cutter.cut c.state v).2 = some buffer := by rw [hcut]
          obtain rfl := hcutter.fresh _ _ _ hyes
          have hreceive : c.receive cutter (.atom v)
              = (({ c with state := s, frames := { buffer := Builder.empty } :: c.frames }
                  ).release.send c.here (.atom v), none) := by
            simp only [Cutout.receive, hp, hcut, Option.map_some, Option.toList_some,
              List.singleton_append]
          have hstate : ({ c with state := s } : Cutout σ Builder).Led wanted := h
          rw [hreceive]
          exact hstate.cut hp (hwanted c.state v (by rw [hyes]; rfl)) c.here
  | closing d =>
    have hrelease := h.release
    show ((c.closed d).collected cutter).1.Led wanted
    cases hframes : c.release.frames with
    | nil => simp [collected, closed, send, hframes, Led]
    | cons f fs =>
      rw [Led, hframes, List.forall_mem_cons] at hrelease
      obtain ⟨⟨head, hhead, hcollects⟩, hfs⟩ := hrelease
      -- the innermost buffer loses a level; with none left it is closed and goes
      by_cases hdepth : 1 < f.depth
      · simp only [collected, closed, send, hframes, if_pos hdepth, Led, List.forall_mem_cons]
        exact ⟨⟨head, hhead, (hcollects.at c.here).closing hdepth⟩, hfs⟩
      · simp only [collected, closed, send, hframes, if_neg hdepth]
        exact hfs

end Cutout

namespace Moment

variable {wanted : String → Prop} {cutter : Cutter σ Builder} {s : σ} {es : List Event}
  {m rest : Moment σ Builder} {b : Builder}

/-- So it is at every moment of a run. -/
theorem led_of_leads (hcutter : cutter.OnNodes)
    (hwanted : ∀ s head, (cutter.cut s head).2.isSome → wanted head)
    (hm : Leads cutter (.start s es) m) : m.cutout.Led wanted := by
  induction hm with
  | refl => simp [Cutout.Led, start]
  | tail _ hstep ih =>
    obtain ⟨-, hm'⟩ | ⟨e, -, -, hm'⟩ := cutout_next? hstep <;> rw [hm']
    · exact ih
    · exact ih.receive hcutter hwanted e

/-- **The group that is handed over** has a head that the cutter wants, at every moment of a run. -/
theorem closing?_wanted (hcutter : cutter.OnNodes)
    (hwanted : ∀ s head, (cutter.cut s head).2.isSome → wanted head)
    (hm : Leads cutter (.start s es) m) (h : m.closing? = some (b, rest)) :
    ∃ form head, b.node? = some form ∧ form.headName? = some head ∧ wanted head := by
  have hled := led_of_leads hcutter hwanted hm
  obtain ⟨d, f, -, hframes, hdepth, rfl, -⟩ := of_closing? h
  -- the buffer holds what was collected, and the closing bracket
  have hclosed : (m.cutout.closed d).frames
      = (m.cutout.release.send m.cutout.here (.closing d)).frames := rfl
  cases hinner : m.cutout.release.frames with
  | nil => simp [hclosed, Cutout.send, hinner] at hframes
  | cons g gs =>
    rw [hclosed, Cutout.send, hinner, List.cons.injEq] at hframes
    obtain ⟨rfl, -⟩ := hframes
    obtain ⟨head, hhead, hcollects⟩ := hled.release g (hinner ▸ List.mem_cons_self)
    obtain ⟨form, hform, hname⟩ := (hcollects.at m.cutout.here).node?_close hdepth
    exact ⟨form, head, hform, hname, hhead⟩

end Moment

end Formwork
