import Formwork.Event

namespace Formwork

/-!
# Cutting groups out of a document

A `Cutout` passes events on, and diverts some groups into buffers on the way. A `Cutter` decides:
it is asked at the first atom of a group whether to cut the group out, gets the buffer back when the
group closes, and may answer with events to put in its place. These go through the same cutout, so
what they hold may be cut out in turn.

Comments between an opening bracket and the head cannot be passed on before the head is known. They
wait with the bracket, and follow it to wherever the group goes.
-/

variable {σ β : Type}

/-- Decides which groups are cut out and what takes their place. -/
structure Cutter (σ β : Type) where
  /-- Asked with the value of the first atom of a group; an answer is the buffer for the group. -/
  cut : σ → String → σ × Option β
  /-- Asked with the buffer of a group that has closed; an answer takes the place of the group. -/
  paste : σ → β → σ × Option (List Event)
  /-- Told when an answer of `paste` has gone through. -/
  pasted : σ → σ

/-- A group being collected. `depth` counts the brackets open inside the buffer. -/
structure Frame (β : Type) where
  buffer : β
  depth : Nat := 0

/-- An opening bracket whose head has not come yet, with the comments after it, newest first. -/
structure PendingOpen where
  delim : Delim
  location : Location
  comments : List (Location × String) := []

/-- The state of cutting. -/
structure Cutout (σ β : Type) where
  /-- The state of the cutter. -/
  state : σ
  /-- The events passed on so far, newest first. -/
  sent : List Event := []
  /-- The groups being collected, innermost first. -/
  frames : List (Frame β) := []
  pending : Option PendingOpen := none
  /-- The location of the next event. -/
  here : Location := Location.nowhere

namespace Cutout

variable [Sink β]

/-- Passes on an event with its location: to the innermost buffer, or out when there is none. -/
def send (c : Cutout σ β) (l : Location) (e : Event) : Cutout σ β :=
  match c.frames with
  | [] => { c with sent := e :: .locate l :: c.sent }
  | f :: fs => { c with frames := { f with buffer := Sink.feed f.buffer [.locate l, e] } :: fs }

/-- Counts one more bracket open in the innermost buffer. -/
def deepen (c : Cutout σ β) : Cutout σ β :=
  match c.frames with
  | [] => c
  | f :: fs => { c with frames := { f with depth := f.depth + 1 } :: fs }

/-- Passes on the pending bracket and the comments after it. -/
def release (c : Cutout σ β) : Cutout σ β :=
  match c.pending with
  | none => c
  | some p =>
    p.comments.reverse.foldl (fun c comment => c.send comment.1 (.comment comment.2))
      ({ c with pending := none }.deepen.send p.location (.opening p.delim))

/-- Takes in the closing of a group that has been passed on. When it is the one being collected, the
    cutter is asked what takes its place. -/
def collected (cutter : Cutter σ β) (c : Cutout σ β) : Cutout σ β × Option (List Event) :=
  match c.frames with
  | [] => (c, none)
  | f :: fs =>
    if 1 < f.depth then
      ({ c with frames := { f with depth := f.depth - 1 } :: fs }, none)
    else
      let (state, answer) := cutter.paste c.state f.buffer
      ({ c with state, frames := fs }, answer)

/-- Takes in one event. An answer is what has to go through next. -/
def receive (cutter : Cutter σ β) (c : Cutout σ β) : Event → Cutout σ β × Option (List Event)
  | .locate l => ({ c with here := l }, none)
  | .opening d =>
    let c := c.release
    ({ c with pending := some { delim := d, location := c.here } }, none)
  | .comment t =>
    match c.pending with
    | some p => ({ c with pending := some { p with comments := (c.here, t) :: p.comments } }, none)
    | none => (c.send c.here (.comment t), none)
  | .atom v =>
    match c.pending with
    | none => (c.send c.here (.atom v), none)
    | some _ =>
      let (state, buffer) := cutter.cut c.state v
      let frames := (buffer.map fun buffer => { buffer }).toList ++ c.frames
      ({ c with state, frames }.release.send c.here (.atom v), none)
  | .closing d => (c.release.send c.here (.closing d)).collected cutter

/-- Takes in one event, and lets the answer go through by `replay`. -/
def advance (cutter : Cutter σ β) (replay : Cutout σ β → List Event → Option (Cutout σ β))
    (c : Cutout σ β) (e : Event) : Option (Cutout σ β) :=
  match c.receive cutter e with
  | (c, none) => some c
  | (c, some answer) => (replay c answer).map fun c => { c with state := cutter.pasted c.state }

/-- Takes in a list of events. `levels` is the number of answers that may be going through at once,
    one inside another; there is no result when they are more. -/
def feed (cutter : Cutter σ β) : Nat → Cutout σ β → List Event → Option (Cutout σ β)
  | 0, c, es => es.foldlM (advance cutter fun _ _ => none) c
  | levels + 1, c, es => es.foldlM (advance cutter (feed cutter levels)) c

end Cutout

/-- Lets events go through a cutout that starts in `state`: the last state of the cutter, and the
    events passed on. Groups still being collected at the end are dropped. -/
def Cutter.run [Sink β] (cutter : Cutter σ β) (levels : Nat) (state : σ) (es : List Event) :
    Option (σ × List Event) :=
  (Cutout.feed cutter levels { state } es).map fun c => (c.state, c.release.sent.reverse)

end Formwork
