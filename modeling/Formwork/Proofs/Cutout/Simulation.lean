import Formwork.Proofs.Cutout.Rewrite

namespace Formwork

/-!
# A cutout carries out the rewrite

Letting the events of plain nodes go through a cutout gives what the recursive rewrite gives: the
same state of the cutter, and the events of the rewritten nodes.

The proof follows one group through the cutout. While its head is not known the opening bracket and
the comments after it wait (`waiting`); when the head comes they are released, into a fresh buffer
or to where the cutout passes events on (`opened`); the children go through a cutout that is
`Ready`, to which the induction applies; and the closing bracket ends the group where it is
(`close_kept`) or hands the buffer over (`close_wanted`).

A cutout remembers the location of the event to come. It is set anew before every event of a replay,
so outcomes are compared with that location taken off (`unplaced`).
-/

variable {σ : Type}

namespace Cutout

section Passing

variable {β : Type} [Sink β]

/-! ### Passing events on -/

/-- Passes on events as they are. -/
def pass (c : Cutout σ β) (es : List Event) : Cutout σ β :=
  match c.frames with
  | [] => { c with sent := es.reverse ++ c.sent }
  | f :: fs => { c with frames := { f with buffer := Sink.feed f.buffer es } :: fs }

/-- Sending an event with its location is passing the two on. -/
theorem send_eq_pass (c : Cutout σ β) (l : Location) (e : Event) :
    c.send l e = c.pass [.locate l, e] := by
  cases h : c.frames <;> simp [send, pass, h]

/-- Passing on nothing changes nothing. -/
@[simp] theorem pass_nil (c : Cutout σ β) : c.pass [] = c := by
  obtain ⟨state, sent, _ | ⟨f, fs⟩, pending, here⟩ := c <;> simp [pass]

/-- Events may be passed on in parts. -/
@[simp] theorem pass_pass (c : Cutout σ β) (es fs : List Event) :
    (c.pass es).pass fs = c.pass (es ++ fs) := by
  cases h : c.frames <;> simp [pass, h]

/-- Passing on does not touch a bracket that waits for its head. -/
@[simp] theorem pending_pass (c : Cutout σ β) (es : List Event) :
    (c.pass es).pending = c.pending := by
  cases h : c.frames <;> simp [pass, h]

/-- Nor does it touch the state of the cutter. -/
@[simp] theorem state_pass (c : Cutout σ β) (es : List Event) : (c.pass es).state = c.state := by
  cases h : c.frames <;> simp [pass, h]

/-- What is passed on goes to the innermost group that is being collected, and counts no
    brackets. -/
theorem depth_pass {c : Cutout σ β} (h : ∀ f ∈ c.frames, 0 < f.depth) (es : List Event) :
    ∀ f ∈ (c.pass es).frames, 0 < f.depth := by
  cases hframes : c.frames with
  | nil => simp [pass, hframes]
  | cons f fs =>
    rw [hframes, List.forall_mem_cons] at h
    simp only [pass, hframes, List.forall_mem_cons]
    exact h

/-- The cutout without the location of the event to come. -/
def unplaced (c : Cutout σ β) : Cutout σ β := { c with here := Location.nowhere }

/-- Whether no bracket waits for its head, and each group being collected is open in its buffer. -/
structure Ready (c : Cutout σ β) : Prop where
  pending : c.pending = none
  depth : ∀ f ∈ c.frames, 0 < f.depth

/-- So a cutout that is ready stays ready. -/
theorem Ready.pass {c : Cutout σ β} (h : c.Ready) (es : List Event) : (c.pass es).Ready :=
  ⟨(pending_pass c es).trans h.pending, depth_pass h.depth es⟩

/-- What is left when a state was reached and nodes were passed on. -/
def outcome (c : Cutout σ β) (r : σ × List Node) : Cutout σ β :=
  ({ c with state := r.1 }.pass (Node.eventsAll r.2)).unplaced

/-- The state that was reached is the state of the cutout. -/
@[simp] theorem state_outcome (c : Cutout σ β) (r : σ × List Node) :
    (c.outcome r).state = r.1 := by
  simp [outcome, unplaced]

/-- With nodes passed on, a cutout that was ready is ready. -/
theorem Ready.outcome {c : Cutout σ β} (h : c.Ready) (r : σ × List Node) : (c.outcome r).Ready :=
  have hs : ({ c with state := r.1 } : Cutout σ β).Ready := ⟨h.pending, h.depth⟩
  ⟨(hs.pass _).pending, (hs.pass _).depth⟩

/-- What is left after two parts is what is left after them in a row. -/
theorem outcome_outcome (c : Cutout σ β) (r q : σ × List Node) :
    (c.outcome r).outcome q = c.outcome (q.1, r.2 ++ q.2) := by
  cases h : c.frames <;> simp [outcome, pass, unplaced, h]

/-- Where the cutout stands has no part in the outcome. -/
theorem outcome_at (c : Cutout σ β) (m : Location) :
    ({ c with here := m }).outcome = c.outcome := by
  funext r
  cases h : c.frames <;> simp [outcome, pass, unplaced, h]

/-! ### Opening a group -/

/-- The cutout when an opening bracket and comments after it wait for the head of the group. -/
def waiting (c : Cutout σ β) (d : Delim) (l : Location) (pc : List Comment) : Cutout σ β :=
  { c with
    pending := some
      { delim := d, location := l, comments := (pc.map fun k => (k.location, k.text)).reverse } }

/-- The events of an opening bracket and the comments after it. -/
def opening (d : Delim) (l : Location) (pc : List Comment) : List Event :=
  .locate l :: .opening d :: Node.eventsAll (pc.map .comment)

/-- Comments that were held back are passed on in order. -/
private theorem foldl_send_comments (pc : List Comment) (c : Cutout σ β) :
    (pc.map fun k => (k.location, k.text)).foldl
        (fun c comment => c.send comment.1 (.comment comment.2)) c
      = c.pass (Node.eventsAll (pc.map .comment)) := by
  induction pc generalizing c with
  | nil => simp [Node.eventsAll]
  | cons k pc ih =>
    rw [List.map_cons, List.foldl_cons, ih, send_eq_pass, pass_pass]
    rfl

/-- Releasing opens the group where the cutout passes events on. -/
theorem release_waiting {c : Cutout σ β} (h : c.pending = none) (d : Delim) (l : Location)
    (pc : List Comment) : (c.waiting d l pc).release = c.deepen.pass (opening d l pc) := by
  obtain ⟨state, sent, frames, pending, here⟩ := c
  subst h
  simp only [release, waiting, List.reverse_reverse]
  rw [foldl_send_comments, send_eq_pass, pass_pass]
  rfl

/-- Where no bracket waits, none is released. -/
theorem release_of_none {c : Cutout σ β} (h : c.pending = none) : c.release = c := by
  simp [release, h]

/-- Releasing, with whatever comments wait with the bracket. -/
theorem release_of_some {c : Cutout σ β} {p : PendingOpen} (h : c.pending = some p) :
    c.release = ({ c with pending := none } : Cutout σ β).deepen.pass
      (opening p.delim p.location (p.comments.reverse.map fun k => ⟨k.2, k.1⟩)) := by
  have hwaiting : c = ({ c with pending := none } : Cutout σ β).waiting p.delim p.location
      (p.comments.reverse.map fun k => ⟨k.2, k.1⟩) := by
    obtain ⟨state, sent, frames, pending, here⟩ := c
    obtain rfl : pending = some p := h
    simp [waiting, Function.comp_def]
  conv_lhs => rw [hwaiting]
  exact release_waiting rfl _ _ _

omit [Sink β] in
/-- Counting a bracket changes the groups being collected only. -/
theorem deepen_eq (c : Cutout σ β) : c.deepen = { c with frames := c.deepen.frames } := by
  obtain ⟨state, sent, _ | ⟨f, fs⟩, pending, here⟩ := c <;> rfl

/-- Nothing waits after a release. -/
theorem pending_release (c : Cutout σ β) : c.release.pending = none := by
  cases hp : c.pending with
  | none => rw [release_of_none hp, hp]
  | some p => rw [release_of_some hp, pending_pass, deepen_eq]

omit [Sink β] in
/-- The innermost group has a bracket open when one more is counted, even if it had none. -/
theorem depth_deepen {c : Cutout σ β} (h : ∀ f ∈ c.frames.tail, 0 < f.depth) :
    ∀ f ∈ c.deepen.frames, 0 < f.depth := by
  cases hframes : c.frames with
  | nil => simp [deepen, hframes]
  | cons f fs =>
    rw [hframes] at h
    simp only [deepen, hframes, List.forall_mem_cons]
    exact ⟨Nat.succ_pos _, h⟩

omit [Sink β] in
/-- Counting one bracket more keeps a cutout ready. -/
theorem Ready.deepen {c : Cutout σ β} (h : c.Ready) : c.deepen.Ready := by
  refine ⟨?_, depth_deepen fun f hf => h.depth f (List.mem_of_mem_tail hf)⟩
  rw [deepen_eq]
  exact h.pending

/-- Going on with a group that is kept: the bracket of the group is counted where the cutout passes
    events on, and its closing takes the count back. -/
theorem collected_kept (cutter : Cutter σ β) {c : Cutout σ β} (h : c.Ready) (es : List Event) :
    (c.deepen.pass es).collected cutter = (c.pass es, none) := by
  have hd := h.depth
  cases hf : c.frames with
  | nil => simp [Cutout.deepen, hf, Cutout.pass, collected]
  | cons f fs =>
    have hpos : 0 < f.depth := hd f (by simp [hf])
    simp [Cutout.deepen, hf, Cutout.pass, collected, hpos]

end Passing

/-! ### Letting events go through -/

section Going

variable {β : Type} [Sink β] {cutter : Cutter σ β}
  {replay : Cutout σ β → List Event → Option (Cutout σ β)}

/-- Takes in events, and lets the answers go through by `replay`. -/
def feedWith (cutter : Cutter σ β) (replay : Cutout σ β → List Event → Option (Cutout σ β))
    (c : Cutout σ β) (es : List Event) : Option (Cutout σ β) :=
  es.foldlM (advance cutter replay) c

/-- Taking in nothing changes nothing. -/
@[simp] theorem feedWith_nil (c : Cutout σ β) : feedWith cutter replay c [] = some c := rfl

/-- Events are taken in one after another, as long as the answers come to an end. -/
theorem feedWith_cons (c : Cutout σ β) (e : Event) (es : List Event) :
    feedWith cutter replay c (e :: es)
      = (advance cutter replay c e).bind fun c => feedWith cutter replay c es := rfl

/-- Taking in one event is one step. -/
theorem feedWith_singleton (c : Cutout σ β) (e : Event) :
    feedWith cutter replay c [e] = advance cutter replay c e := by
  rw [feedWith_cons]
  exact Option.bind_fun_some _

/-- Events may be taken in in parts. -/
theorem feedWith_append (c : Cutout σ β) (es fs : List Event) :
    feedWith cutter replay c (es ++ fs)
      = (feedWith cutter replay c es).bind fun c => feedWith cutter replay c fs :=
  List.foldlM_append

/-- A location is kept for the event to come. -/
@[simp] theorem feedWith_locate (c : Cutout σ β) (l : Location) (es : List Event) :
    feedWith cutter replay c (.locate l :: es) = feedWith cutter replay { c with here := l } es :=
  rfl

/-- Where a cutout stands does not matter before placed events. -/
theorem feedWith_unplaced {es : List Event} (h : Event.Placed es) (c : Cutout σ β) :
    (feedWith cutter replay c.unplaced es).map unplaced
      = (feedWith cutter replay c es).map unplaced := by
  obtain rfl | ⟨l, rest, rfl⟩ := h
  · rfl
  · rw [feedWith_locate, feedWith_locate]
    rfl

/-- Outcomes of placed events can be put one after the other. -/
theorem feedWith_append_unplaced (c : Cutout σ β) (es : List Event) {fs : List Event}
    (h : Event.Placed fs) :
    (feedWith cutter replay c (es ++ fs)).map unplaced
      = ((feedWith cutter replay c es).map unplaced).bind fun c =>
          (feedWith cutter replay c fs).map unplaced := by
  rw [feedWith_append]
  cases feedWith cutter replay c es with
  | none => rfl
  | some c' => exact (feedWith_unplaced h c').symm

/-- A location that is held back may as well be set at once. -/
private theorem feedWith_filterCommentsFrom (es : List Event) :
    ∀ (c : Cutout σ β) (held : Option Location),
      (feedWith cutter replay { c with here := held.getD c.here } es).map unplaced
        = (feedWith cutter replay c (filterCommentsFrom true held es)).map unplaced := by
  induction es with
  | nil => exact fun c held => rfl
  | cons e es ih =>
    intro c held
    -- a location is held back until an event uses it; any other event takes the one that is held
    by_cases he : ∃ l, e = .locate l
    · obtain ⟨l, rfl⟩ := he
      exact ih c (some l)
    · rw [not_exists] at he
      have hgo : ∀ c : Cutout σ β,
          (feedWith cutter replay c (e :: es)).map unplaced
            = (feedWith cutter replay c (e :: filterCommentsFrom true none es)).map unplaced := by
        intro c
        rw [feedWith_cons, feedWith_cons]
        cases advance cutter replay c e with
        | none => rfl
        | some c' => exact ih c' none
      rw [filterCommentsFrom_cons he (.inl rfl)]
      cases held <;> exact hgo _

/-- Events that replay nodes go through as the events of the nodes do. -/
theorem feedWith_of_replays {es : List Event} {ns : List Node} (h : Event.Replays es ns)
    (c : Cutout σ β) :
    (feedWith cutter replay c es).map unplaced
      = (feedWith cutter replay c (Node.eventsAll ns)).map unplaced := by
  have hes : filterCommentsFrom true none es = Node.eventsAll ns := h
  rw [← hes]
  exact feedWith_filterCommentsFrom es c none

end Going

/-! ### One group -/

section Groups

variable {cutter : Cutter σ Builder}
  {replay : Cutout σ Builder → List Event → Option (Cutout σ Builder)}
  {replay' : List Node → σ → Option (σ × List Node)}

/-- Whether `replay` lets replays of plain nodes go through as `replay'` rewrites the nodes. -/
def Simulates (replay : Cutout σ Builder → List Event → Option (Cutout σ Builder))
    (replay' : List Node → σ → Option (σ × List Node)) : Prop :=
  ∀ (c : Cutout σ Builder) (ns : List Node) (es : List Event), c.Ready → Node.plainAll ns = ns →
    Event.Replays es ns → (replay c es).map unplaced = (replay' ns c.state).map c.outcome

/-- The cutout when the cutter has been asked about the head of a group. -/
def asked (cutter : Cutter σ Builder) (c : Cutout σ Builder) (head : Option String) :
    Cutout σ Builder :=
  { c with
    state := (cutter.ask c.state head).1
    frames :=
      if (cutter.ask c.state head).2 then { buffer := Builder.empty } :: c.frames else c.frames }

/-- The cutout when a group with known head has been opened. -/
def opened (cutter : Cutter σ Builder) (c : Cutout σ Builder) (d : Delim) (l : Location)
    (pc : List Comment) (head : Option String) : Cutout σ Builder :=
  (c.asked cutter head).deepen.pass (opening d l pc)

/-- When a group has been opened, the cutout is ready for what is inside. -/
theorem Ready.opened {c : Cutout σ Builder} (h : c.Ready) (d : Delim) (l : Location)
    (pc : List Comment) (head : Option String) : (c.opened cutter d l pc head).Ready := by
  refine Ready.pass ?_ _
  cases hw : (cutter.ask c.state head).2 with
  | false => exact Ready.deepen ⟨h.pending, by simpa [asked, hw] using h.depth⟩
  | true =>
    refine ⟨by simpa [asked, Cutout.deepen, hw] using h.pending, ?_⟩
    simpa [asked, Cutout.deepen, hw] using h.depth

/-- The cutter has been asked about the head, and nothing else. -/
@[simp] theorem state_opened (c : Cutout σ Builder) (d : Delim) (l : Location) (pc : List Comment)
    (head : Option String) :
    (c.opened cutter d l pc head).state = (cutter.ask c.state head).1 := by
  cases hf : (c.asked cutter head).frames <;> simp [opened, deepen, hf] <;> simp [asked]

/-- The head of a group is that of its children after the leading comments. -/
theorem headName?_comments (d : Delim) (pc : List Comment) (cs : List Node) (l stop : Location) :
    (Node.group d (pc.map .comment ++ cs) l stop).headName?
      = (Node.group d cs l stop).headName? := by
  have h : (pc.map Node.comment).filter (fun c => !c.isComment) = [] := by
    simp [List.filter_eq_nil_iff, Node.isComment]
  simp [Node.headName?, Node.head?, Node.exprs, Node.children, h]

/-- Further comments wait with the bracket. -/
theorem feedWith_waiting_comment (c : Cutout σ Builder) (d : Delim) (l : Location)
    (pc : List Comment) (k : Comment) (es : List Event) :
    feedWith cutter replay (c.waiting d l pc) ((Node.comment k).events ++ es)
      = feedWith cutter replay ({ c with here := k.location }.waiting d l (pc ++ [k])) es := by
  simp [Node.events, feedWith_cons, advance, receive, waiting]

/-- Opening a group leaves the cutout where it stands. -/
theorem opened_at (c : Cutout σ Builder) (d : Delim) (l : Location) (pc : List Comment)
    (head : Option String) (m : Location) :
    ({ c with here := m }).opened cutter d l pc head
      = { c.opened cutter d l pc head with here := m } := by
  cases hf : (c.asked cutter head).frames <;>
    simp [opened, asked, deepen, pass] at hf ⊢ <;> simp [hf]

/-- Opening a group does not touch the location of the event to come. -/
@[simp] theorem here_opened (c : Cutout σ Builder) (d : Delim) (l : Location) (pc : List Comment)
    (head : Option String) : (c.opened cutter d l pc head).here = c.here :=
  (congrArg here (opened_at c d l pc head c.here)).trans rfl

/-- A bracket opens the group that waits for its head: the head is no atom then. -/
theorem receive_waiting_bracket {c : Cutout σ Builder} (h : c.Ready) (d : Delim) (l : Location)
    (pc : List Comment) {e : Event} (he : (∃ d', e = .opening d') ∨ ∃ d', e = .closing d') :
    (c.waiting d l pc).receive cutter e = (c.opened cutter d l pc none).receive cutter e := by
  have hw : (c.waiting d l pc).release = c.opened cutter d l pc none := by
    rw [release_waiting h.pending]
    rfl
  have ho : (c.opened cutter d l pc none).release = c.opened cutter d l pc none :=
    release_of_none (h.opened d l pc none).pending
  rcases he with ⟨d', rfl⟩ | ⟨d', rfl⟩
  · simp only [receive, hw, ho]
  · simp only [receive, hw, ho, here_opened]
    rfl

/-- An atom opens the group that waits for its head, and the cutter is asked about it. -/
theorem receive_waiting_atom (hc : cutter.OnNodes) {c : Cutout σ Builder} (h : c.Ready) (d : Delim)
    (l : Location) (pc : List Comment) (v : String) :
    (c.waiting d l pc).receive cutter (.atom v)
      = (c.opened cutter d l pc (some v)).receive cutter (.atom v) := by
  -- if the head is wanted, a new buffer is put in front of the frames, and the bracket goes into it
  -- when it is released
  have hframes : ((cutter.cut c.state v).2.map fun buffer => ({ buffer } : Frame Builder)).toList
        ++ c.frames = (c.asked cutter (some v)).frames := by
    cases hb : (cutter.cut c.state v).2 with
    | none => simp [asked, Cutter.ask, hb]
    | some b => simp [asked, Cutter.ask, hb, hc.fresh _ _ _ hb]
  have hw : ({ c.waiting d l pc with
        state := (cutter.cut c.state v).1
        frames := ((cutter.cut c.state v).2.map fun buffer => ({ buffer } : Frame Builder)).toList
          ++ c.frames } : Cutout σ Builder).release = c.opened cutter d l pc (some v) := by
    rw [hframes]
    exact release_waiting (c := c.asked cutter (some v)) h.pending d l pc
  have ho : (c.opened cutter d l pc (some v)).receive cutter (.atom v)
      = ((c.opened cutter d l pc (some v)).send c.here (.atom v), none) := by
    simp only [receive, (h.opened d l pc _).pending, here_opened]
  rw [ho, ← hw]
  rfl

/-- The first child that is no comment opens the group, and so does the closing bracket. -/
theorem feedWith_waiting_head (hc : cutter.OnNodes) {c : Cutout σ Builder} (h : c.Ready) (d : Delim)
    (l stop : Location) (pc : List Comment) {cs : List Node}
    (hcs : ∀ n ∈ cs.head?, n.isComment = false) (es : List Event) :
    feedWith cutter replay (c.waiting d l pc)
        (Node.eventsAll cs ++ .locate stop :: .closing d :: es)
      = feedWith cutter replay (c.opened cutter d l pc (Node.group d cs l stop).headName?)
          (Node.eventsAll cs ++ .locate stop :: .closing d :: es) := by
  -- the location before the first event that counts may be set before the group is opened
  have hgo : ∀ (m : Location) (e : Event) (fs : List Event) (head : Option String),
      (∀ c : Cutout σ Builder, c.Ready →
        (c.waiting d l pc).receive cutter e = (c.opened cutter d l pc head).receive cutter e) →
      feedWith cutter replay (c.waiting d l pc) (.locate m :: e :: fs)
        = feedWith cutter replay (c.opened cutter d l pc head) (.locate m :: e :: fs) := by
    intro m e fs head he
    have hm := he { c with here := m } ⟨h.pending, h.depth⟩
    rw [feedWith_locate, feedWith_locate, feedWith_cons, feedWith_cons, advance, advance,
      ← opened_at, ← hm]
    rfl
  match cs, hcs with
  | [], _ => exact hgo _ _ _ none fun c h => receive_waiting_bracket h d l pc (.inr ⟨d, rfl⟩)
  | .group d' _ _ _ :: _, _ =>
    rw [Node.eventsAll, Node.events]
    exact hgo _ _ _ none fun c h => receive_waiting_bracket h d l pc (.inl ⟨d', rfl⟩)
  | .atom a :: _, _ => exact hgo _ _ _ _ fun c h => receive_waiting_atom hc h d l pc a.value
  | .comment k :: _, hcs => exact absurd (hcs _ rfl) (by simp [Node.isComment])

/-! ### Closing a group -/

/-- The events of a group are those that open it, those of its other children, and its closing. -/
theorem events_group (d : Delim) (pc : List Comment) (ms : List Node) (l stop : Location) :
    (Node.group d (pc.map .comment ++ ms) l stop).events
      = opening d l pc ++ Node.eventsAll ms ++ [.locate stop, .closing d] := by
  simp [Node.events, opening]

/-- What a closing bracket does when no bracket waits for its head. -/
theorem receive_closing {c : Cutout σ Builder} (h : c.pending = none) (d : Delim) :
    c.receive cutter (.closing d) = (c.pass [.locate c.here, .closing d]).collected cutter := by
  rw [receive, release_of_none h, send_eq_pass]

/-- The closing bracket of a group that is kept. -/
theorem close_kept {c : Cutout σ Builder} (h : c.Ready) (d : Delim) (l stop : Location)
    (pc : List Comment) {head : Option String} (hw : (cutter.ask c.state head).2 = false)
    (r : σ × List Node) :
    (feedWith cutter replay ((c.opened cutter d l pc head).outcome r)
        [.locate stop, .closing d]).map unplaced
      = some (c.outcome (r.1, [.group d (pc.map .comment ++ r.2) l stop])) := by
  let c₁ : Cutout σ Builder := { c with state := r.1, here := stop }
  have h₁ : c₁.Ready := ⟨h.pending, h.depth⟩
  -- the group that stays is all passed on, at the depth of the groups around it
  have hopen : { (c.opened cutter d l pc head).outcome r with here := stop }
      = c₁.deepen.pass (opening d l pc ++ Node.eventsAll r.2) := by
    cases hf : c.frames <;> simp [outcome, opened, asked, unplaced, deepen, pass, c₁, hw, hf]
  have hclose : (c₁.deepen.pass (opening d l pc ++ Node.eventsAll r.2)).receive cutter (.closing d)
      = (c₁.pass (Node.group d (pc.map .comment ++ r.2) l stop).events, none) := by
    rw [receive_closing (h₁.deepen.pass _).pending, pass_pass, collected_kept cutter h₁,
      events_group]
    cases hf : c.frames <;> simp [deepen, pass, c₁, hf]
  rw [feedWith_locate, hopen, feedWith_singleton, advance, hclose]
  cases hf : c.frames <;> simp [outcome, unplaced, pass, Node.eventsAll, c₁, hf]

/-- The closing bracket of a group that was cut out. -/
theorem close_wanted (hc : cutter.OnNodes) (hs : Simulates replay replay') {c : Cutout σ Builder}
    (h : c.Ready) (d : Delim) (l stop : Location) (pc : List Comment) {head : Option String}
    (hw : (cutter.ask c.state head).2 = true) {r : σ × List Node}
    (hr : Node.plainAll r.2 = r.2) :
    (feedWith cutter replay ((c.opened cutter d l pc head).outcome r)
        [.locate stop, .closing d]).map unplaced
      = (cutter.replace replay' (.group d (pc.map .comment ++ r.2) l stop) r.1).map c.outcome := by
  let g : Node := .group d (pc.map .comment ++ r.2) l stop
  let es := opening d l pc ++ Node.eventsAll r.2
  have hg : g.plain = g := by
    have hpc : Node.plainAll (pc.map Node.comment) = pc.map .comment := by
      simp [Node.plainAll_eq_self_iff, Node.plain]
    simp [g, Node.plain, hpc, hr]
  -- the buffer holds the rebuilt group once the bracket has reached it
  have hbuffer : Sink.feed (Sink.feed Builder.empty es) [.locate stop, .closing d]
      = Builder.holding g := by
    rw [← Sink.feed_append, ← events_group, Builder.feed_empty_events, hg]
  let c₁ : Cutout σ Builder :=
    { c with
      state := r.1
      here := stop
      frames := { buffer := Sink.feed Builder.empty es, depth := 1 } :: c.frames }
  have hopen : { (c.opened cutter d l pc head).outcome r with here := stop } = c₁ := by
    simp [outcome, opened, asked, unplaced, deepen, pass, c₁, es, hw]
  let c₂ : Cutout σ Builder :=
    { c with state := (cutter.paste r.1 (Builder.holding g)).1, here := stop }
  have hclose : c₁.receive cutter (.closing d)
      = (c₂, (cutter.paste r.1 (Builder.holding g)).2) := by
    have hpass : c₁.pass [.locate stop, .closing d]
        = { c₁ with frames := { buffer := Builder.holding g, depth := 1 } :: c.frames } := by
      rw [← hbuffer]
      rfl
    rw [receive_closing (c := c₁) h.pending, hpass]
    rfl
  -- the frame is off, so the answer goes through a cutout that is ready
  have hready : c₂.Ready := ⟨h.pending, h.depth⟩
  rw [feedWith_locate, hopen, feedWith_singleton, advance, hclose, Cutter.replace]
  cases hp : cutter.paste r.1 (Builder.holding g) with
  | mk s answer =>
    cases answer with
    | none => simp [outcome, c₂, hp, Node.eventsAll, unplaced]
    | some answer =>
      obtain ⟨ns, hns⟩ := hc.replays r.1 (Builder.holding g) answer (by rw [hp])
      have hb : Builder.build answer = Node.plainAll ns := Builder.build_of_replays hns
      have hrep := hs c₂ (Builder.build answer) answer hready (by simp [hb])
        (by rw [hb, Event.Replays, Node.eventsAll_plainAll]; exact hns)
      have hpasted : unplaced ∘ (fun c : Cutout σ Builder =>
          { c with state := cutter.pasted c.state })
            = (fun c : Cutout σ Builder => { c with state := cutter.pasted c.state }) ∘ unplaced :=
        rfl
      simp only [Option.map_map]
      rw [hpasted, ← Option.map_map, hrep, Option.map_map]
      simp only [c₂, hp]
      congr 1
      funext q
      cases hf : c.frames <;> simp [outcome, pass, unplaced, hf]

/-! ### Simulation -/

/-- Whether the events of a node go through as the node is rewritten. -/
def NodeSimulated (cutter : Cutter σ Builder)
    (replay : Cutout σ Builder → List Event → Option (Cutout σ Builder))
    (replay' : List Node → σ → Option (σ × List Node)) (n : Node) : Prop :=
  ∀ c : Cutout σ Builder, c.Ready → n.plain = n →
    (feedWith cutter replay c n.events).map unplaced
      = (cutter.rewriteNode replay' n c.state).map c.outcome

/-- Nodes go through one after another. -/
theorem feedWith_eventsAll {ns : List Node}
    (hns : ∀ n ∈ ns, NodeSimulated cutter replay replay' n) (hp : Node.plainAll ns = ns)
    {c : Cutout σ Builder} (h : c.Ready) :
    (feedWith cutter replay c (Node.eventsAll ns)).map unplaced
      = (cutter.rewriteAll replay' ns c.state).map c.outcome := by
  induction ns generalizing c with
  | nil =>
    obtain ⟨state, sent, frames, pending, here⟩ := c
    simp [Node.eventsAll, Cutter.rewriteAll, outcome]
  | cons n ns ih =>
    rw [Node.plainAll, List.cons.injEq] at hp
    rw [Node.eventsAll, feedWith_append_unplaced c _ (Event.placed_eventsAll ns),
      hns n (by simp) c h hp.1, Cutter.rewriteAll]
    cases cutter.rewriteNode replay' n c.state with
    | none => rfl
    | some r =>
      -- the induction goes on from the outcome of the first node
      have hr := ih (fun m hm => hns m (by simp [hm])) hp.2 (h.outcome r)
      rw [state_outcome] at hr
      simp only [Option.map_some, Option.bind_some, hr, Option.map_map]
      congr 1
      funext q
      exact outcome_outcome c r q

/-- The children of a group go through as the group is rewritten, when its head comes next. -/
theorem feedWith_children_head (hc : cutter.OnNodes) (hs : Simulates replay replay')
    (hr : Cutter.MakesPlain replay') (d : Delim) (l stop : Location) (pc : List Comment)
    {cs : List Node} (hcs : ∀ n ∈ cs, NodeSimulated cutter replay replay' n)
    (hp : Node.plainAll cs = cs) (hhead : ∀ n ∈ cs.head?, n.isComment = false)
    {c : Cutout σ Builder} (h : c.Ready) :
    (feedWith cutter replay (c.waiting d l pc)
        (Node.eventsAll cs ++ [.locate stop, .closing d])).map unplaced
      = (cutter.rewriteNode replay' (.group d (pc.map .comment ++ cs) l stop) c.state).map
          c.outcome := by
  rw [feedWith_waiting_head hc h d l stop pc hhead,
    feedWith_append_unplaced _ _ (Event.placed_locate _ _),
    feedWith_eventsAll hcs hp (h.opened d l pc _), state_opened, Cutter.rewriteNode,
    headName?_comments, Cutter.rewriteAll_comments]
  cases hq : cutter.rewriteAll replay' cs
      (cutter.ask c.state (Node.group d cs l stop).headName?).1 with
  | none => rfl
  | some r =>
    have hplain := Cutter.rewriteAll_plain hc hr cs _ r hp hq
    simp only [Option.map_some, Option.bind_some]
    -- the answer of the cutter decides whether the group stays or is handed over
    cases hw : (cutter.ask c.state (Node.group d cs l stop).headName?).2 with
    | false => exact close_kept h d l stop pc hw r
    | true => exact close_wanted hc hs h d l stop pc hw hplain

/-- The children of a group go through as the group is rewritten. -/
theorem feedWith_children (hc : cutter.OnNodes) (hs : Simulates replay replay')
    (hr : Cutter.MakesPlain replay') (d : Delim) (l stop : Location) {cs : List Node}
    (hcs : ∀ n ∈ cs, NodeSimulated cutter replay replay' n) (hp : Node.plainAll cs = cs)
    (pc : List Comment) {c : Cutout σ Builder} (h : c.Ready) :
    (feedWith cutter replay (c.waiting d l pc)
        (Node.eventsAll cs ++ [.locate stop, .closing d])).map unplaced
      = (cutter.rewriteNode replay' (.group d (pc.map .comment ++ cs) l stop) c.state).map
          c.outcome := by
  -- the leading comments join those that wait already
  induction cs generalizing pc c with
  | nil => exact feedWith_children_head hc hs hr d l stop pc hcs hp (by simp) h
  | cons n cs ih =>
    by_cases hn : n.isComment = true
    · obtain ⟨k, rfl⟩ : ∃ k, n = .comment k := by
        cases n <;> simp [Node.isComment] at hn ⊢
      rw [Node.plainAll, List.cons.injEq] at hp
      have hk := ih (fun m hm => hcs m (by simp [hm])) hp.2 (pc ++ [k])
        (c := { c with here := k.location }) ⟨h.pending, h.depth⟩
      rw [Node.eventsAll, List.append_assoc, feedWith_waiting_comment, hk]
      simp only [List.map_append, List.map_cons, List.map_nil, List.append_assoc, List.cons_append,
        List.nil_append, outcome_at]
    · exact feedWith_children_head hc hs hr d l stop pc hcs hp (by simpa using hn) h

/-- **Every node goes through as it is rewritten.** -/
theorem node_simulated (hc : cutter.OnNodes) (hs : Simulates replay replay')
    (hr : Cutter.MakesPlain replay') (n : Node) : NodeSimulated cutter replay replay' n := by
  -- by induction on the node: inside of a group each child is simulated, and `feedWith_children`
  -- closes the group
  induction n using Node.induct with
  | atom a =>
    intro c h _
    cases hf : c.frames <;>
      simp [Node.events, feedWith_singleton, advance, receive, h.pending, send_eq_pass,
        Cutter.rewriteNode, outcome, pass, unplaced, Node.eventsAll, hf]
  | comment k =>
    intro c h _
    cases hf : c.frames <;>
      simp [Node.events, feedWith_singleton, advance, receive, h.pending, send_eq_pass,
        Cutter.rewriteNode, outcome, pass, unplaced, Node.eventsAll, hf]
  | group d cs l stop ih =>
    intro c h hp
    have hcs : Node.plainAll cs = cs := by simpa [Node.plain] using hp
    have hopen : feedWith cutter replay c (Node.group d cs l stop).events
        = feedWith cutter replay ({ c with here := l }.waiting d l [])
            (Node.eventsAll cs ++ [.locate stop, .closing d]) := by
      rw [Node.events, feedWith_locate, feedWith_cons, advance, receive,
        release_of_none (c := { c with here := l }) h.pending]
      rfl
    rw [hopen, feedWith_children hc hs hr d l stop ih hcs [] (c := { c with here := l })
      ⟨h.pending, h.depth⟩, outcome_at]
    rfl

/-- **The cutout simulates the rewrite**, if its answers do. -/
theorem feedWith_simulates (hc : cutter.OnNodes) (hs : Simulates replay replay')
    (hr : Cutter.MakesPlain replay') :
    Simulates (feedWith cutter replay) (cutter.rewriteAll replay') := by
  intro c ns es h hp hes
  rw [feedWith_of_replays hes, feedWith_eventsAll (fun n _ => node_simulated hc hs hr n) hp h]

/-- Whatever the number of levels, the cutout simulates the rewrite. -/
theorem feed_simulates (hc : cutter.OnNodes) (levels : Nat) :
    Simulates (feed cutter levels) (cutter.rewrite levels) := by
  induction levels with
  | zero => exact feedWith_simulates hc (fun _ _ _ _ _ _ => rfl) (by simp [Cutter.MakesPlain])
  | succ levels ih => exact feedWith_simulates hc ih (Cutter.rewrite_plain hc levels)

end Groups

end Cutout

/-- **A run is the rewrite.** Letting the replay of plain nodes go through a cutout gives the state
    that the rewrite ends in and the events of the nodes that it makes, or nothing if it ends within
    no such number of levels. -/
theorem Cutter.run_of_replays {cutter : Cutter σ Builder} (hc : cutter.OnNodes) (levels : Nat)
    (s : σ) {ns : List Node} (hp : Node.plainAll ns = ns) {es : List Event}
    (hes : Event.Replays es ns) :
    cutter.run levels s es
      = (cutter.rewrite levels ns s).map fun r => (r.1, Node.eventsAll r.2) := by
  have h := Cutout.feed_simulates hc levels { state := s } ns es ⟨rfl, by simp⟩ hp hes
  rw [run]
  cases hf : Cutout.feed cutter levels { state := s } es with
  | none =>
    rw [hf, Option.map_none, eq_comm, Option.map_eq_none_iff] at h
    rw [h]
    rfl
  | some c =>
    rw [hf, eq_comm] at h
    obtain ⟨r, hr, hrc⟩ := Option.map_eq_some_iff.mp h
    -- a run ends by releasing a bracket that waits, and here none does
    have hstate : c.state = r.1 := congrArg Cutout.state hrc.symm
    have hsent : c.sent = (Node.eventsAll r.2).reverse ++ [] := congrArg Cutout.sent hrc.symm
    have hpending : c.pending = none := congrArg Cutout.pending hrc.symm
    rw [hr, Option.map_some, Option.map_some, Cutout.release_of_none hpending, hstate, hsent,
      List.append_nil, List.reverse_reverse]

end Formwork
