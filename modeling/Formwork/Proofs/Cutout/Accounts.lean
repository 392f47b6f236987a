import Formwork.Proofs.Cutout.Views
import Mathlib.Data.List.Forall2
import Mathlib.Data.List.Nodup
import Mathlib.Data.List.Range

namespace Formwork

/-!
# Accounts of what was received

A cutout passes each event on once, with its location before it, and to one place: out, or into one
of the buffers that the cutter has given. Only an opening bracket and the comments after it wait,
until the head of the group is known.

The cutter gives the buffers and is handed them back, so it sees what becomes of them. A cutter that
takes notes of that (`Cutter.noting`) shows it, and nothing else has to be known about the buffers.

* `Cutout.Accounts` — where each event went that was received, and which buffers are where.
* `Cutout.Accounts.pass`, `Cutout.Accounts.release`, `Cutout.Accounts.headed`,
  `Cutout.Accounts.collected` — what a cutout does keeps the accounts.
* `Cutout.Accounted.receive` — so they are kept whatever event comes.
-/

variable {σ β : Type}

/-! ### Notes -/

/-- What a cutter was asked and handed. -/
inductive Note (β : Type) where
  /-- The cutter was asked about a head, and perhaps gave a buffer. -/
  | asked (head : String) (given : Option β)
  /-- The cutter was handed a buffer. -/
  | handed (buffer : β)

namespace Note

/-- The buffers that the cutter gave, in order. -/
def given (notes : List (Note β)) : List β :=
  notes.filterMap fun
    | asked _ b => b
    | handed _ => none

/-- The buffers that the cutter was handed, in order. -/
def returned (notes : List (Note β)) : List β :=
  notes.filterMap fun
    | asked _ _ => none
    | handed b => some b

/-- Buffers are given in the order of the notes. -/
theorem given_append (notes more : List (Note β)) :
    given (notes ++ more) = given notes ++ given more :=
  List.filterMap_append

/-- They are handed back in the order of the notes. -/
theorem returned_append (notes more : List (Note β)) :
    returned (notes ++ more) = returned notes ++ returned more :=
  List.filterMap_append

end Note

/-- The cutter that does the same, and takes notes. -/
def Cutter.noting (cutter : Cutter σ β) : Cutter (σ × List (Note β)) β where
  cut s head :=
    (((cutter.cut s.1 head).1, s.2 ++ [.asked head (cutter.cut s.1 head).2]),
      (cutter.cut s.1 head).2)
  paste s b := (((cutter.paste s.1 b).1, s.2 ++ [.handed b]), (cutter.paste s.1 b).2)
  pasted s := (cutter.pasted s.1, s.2)

/-- The cutter does what the one with the notes does, whose notes are not seen. -/
theorem Cutter.noting_shows (cutter : Cutter σ β) : cutter.noting.Shows Prod.fst cutter :=
  ⟨fun _ _ => rfl, fun _ _ => rfl, fun _ => rfl⟩

/-! ### Deliveries -/

/-- An event that was passed on, out or to the buffer with a number. -/
structure Delivery where
  place : Option Nat
  received : Location × Event

namespace Delivery

/-- What was passed on to one place. -/
def arrived (place : Option Nat) (ds : List Delivery) : List Event :=
  Event.unlocated ((ds.filter (·.place = place)).map received)

/-- Events that are passed on to one place, one after another. -/
def along (place : Option Nat) (received : List (Location × Event)) : List Delivery :=
  received.map fun p => { place, received := p }

/-- Nothing gets lost on the way to a place. -/
@[simp] theorem map_received_along (place : Option Nat) (received : List (Location × Event)) :
    (along place received).map Delivery.received = received := by
  simp [along, Function.comp_def]

/-- What goes to a place has that place. -/
theorem place_along (place : Option Nat) (received : List (Location × Event)) :
    ∀ d ∈ along place received, d.place = place := by
  simp only [along, List.forall_mem_map, implies_true]

/-- What goes to a place arrives there, after what has arrived already. -/
theorem arrived_along_self (place : Option Nat) (ds : List Delivery)
    (received : List (Location × Event)) :
    arrived place (ds ++ along place received) = arrived place ds ++ Event.unlocated received := by
  have hall : (along place received).filter (·.place = place) = along place received :=
    List.filter_eq_self.mpr fun d hd => decide_eq_true (place_along place received d hd)
  rw [arrived, List.filter_append, hall, List.map_append, Event.unlocated_append,
    map_received_along, arrived]

/-- It does not arrive anywhere else. -/
theorem arrived_along_other {place other : Option Nat} (h : other ≠ place) (ds : List Delivery)
    (received : List (Location × Event)) :
    arrived other (ds ++ along place received) = arrived other ds := by
  have hnone : (along place received).filter (·.place = other) = [] :=
    List.filter_eq_nil_iff.mpr fun d hd => by simp [place_along place received d hd, h.symm]
  rw [arrived, List.filter_append, hnone, List.append_nil, arrived]

end Delivery

section

variable [Sink β]

/-- Whether a buffer is what has become of the given one with a number, by what was passed on to
    it. -/
def Delivery.Fills (notes : List (Note β)) (ds : List Delivery) (n : Nat) (b : β) : Prop :=
  ∃ fresh, (Note.given notes)[n]? = some fresh ∧ b = Sink.feed fresh (arrived (some n) ds)

namespace Delivery

variable {notes : List (Note β)} {ds : List Delivery} {n : Nat} {b : β}

/-- What goes to a buffer is fed to it. -/
theorem Fills.along_self (h : Fills notes ds n b) (received : List (Location × Event)) :
    Fills notes (ds ++ along (some n) received) n (Sink.feed b (Event.unlocated received)) := by
  obtain ⟨fresh, hfresh, rfl⟩ := h
  exact ⟨fresh, hfresh, by rw [arrived_along_self, Sink.feed_append]⟩

/-- What is passed on elsewhere leaves buffers alone. -/
theorem forall₂_along_other {place : Option Nat} {ns : List Nat} {bs : List β}
    (h : List.Forall₂ (Fills notes ds) ns bs) (hns : ∀ n ∈ ns, some n ≠ place)
    (received : List (Location × Event)) :
    List.Forall₂ (Fills notes (ds ++ along place received)) ns bs := by
  refine ((List.forall₂_and_left ns bs).mpr ⟨hns, h⟩).imp fun n b hn => ?_
  obtain ⟨hne, fresh, hfresh, rfl⟩ := hn
  exact ⟨fresh, hfresh, by rw [arrived_along_other hne]⟩

/-- Further notes do not change what was noted about a buffer. -/
theorem Fills.append (h : Fills notes ds n b) (more : List (Note β)) :
    Fills (notes ++ more) ds n b := by
  obtain ⟨fresh, hfresh, rfl⟩ := h
  refine ⟨fresh, ?_, rfl⟩
  rwa [Note.given_append, List.getElem?_append_left (List.getElem?_eq_some_iff.mp hfresh).1]

end Delivery

namespace Cutout

/-! ### The head of a group -/

/-- The cutout when the cutter was asked about the head of the group that waits for it. -/
def headed (cutter : Cutter σ β) (c : Cutout σ β) (head : String) : Cutout σ β :=
  { c with
    state := (cutter.cut c.state head).1
    frames := ((cutter.cut c.state head).2.map fun buffer => { buffer }).toList ++ c.frames }

/-- An atom after a bracket that waits is its head: the cutter is asked, the bracket is released,
    and the atom follows it. -/
theorem receive_atom_of_some (cutter : Cutter σ β) {c : Cutout σ β} {p : PendingOpen}
    (hp : c.pending = some p) (v : String) :
    c.receive cutter (.atom v) = ((c.headed cutter v).release.send c.here (.atom v), none) := by
  simp only [receive, hp, headed]

/-! ### What waits -/

/-- The events that wait for the head of a group. -/
def held (c : Cutout σ β) : List (Location × Event) :=
  match c.pending with
  | none => []
  | some p => (p.location, .opening p.delim) :: p.comments.reverse.map fun k => (k.1, .comment k.2)

omit [Sink β] in
/-- Where no bracket waits, no events wait. -/
theorem held_of_none {c : Cutout σ β} (hp : c.pending = none) : c.held = [] := by
  simp only [held, hp]

/-- After a release no events wait. -/
theorem held_release (c : Cutout σ β) : c.release.held = [] := held_of_none (pending_release c)

/-- What waits is passed on when it is released. -/
theorem release_eq_pass {c : Cutout σ β} {p : PendingOpen} (hp : c.pending = some p) :
    c.release = ({ c with pending := none } : Cutout σ β).deepen.pass (Event.unlocated c.held) := by
  have hheld : Event.unlocated c.held
      = opening p.delim p.location (p.comments.reverse.map fun k => ⟨k.2, k.1⟩) := by
    simp only [held, hp, opening, Event.unlocated, List.flatMap_cons, List.flatMap_map,
      Node.eventsAll_eq_flatMap]
    rfl
  rw [hheld, release_of_some hp]

omit [Sink β] in
/-- Counting a bracket changes no buffer. -/
theorem map_buffer_deepen (c : Cutout σ β) :
    c.deepen.frames.map Frame.buffer = c.frames.map Frame.buffer := by
  cases hframes : c.frames <;> simp only [deepen, hframes, List.map_cons]

/-- Passing events on does not touch the location of the event to come. -/
theorem here_pass (c : Cutout σ β) (es : List Event) : (c.pass es).here = c.here := by
  cases hframes : c.frames <;> simp only [pass, hframes]

/-- Nor does a release. -/
theorem here_release (c : Cutout σ β) : c.release.here = c.here := by
  cases hp : c.pending with
  | none => rw [release_of_none hp]
  | some p => rw [release_of_some hp, here_pass, deepen_eq]

/-! ### Accounts -/

/-- **Where each event went.** The deliveries and the events that wait are together what was
    received, in its order. Out and into each of the buffers that were given came what was passed on
    there and nothing else. Each of the buffers was either handed back or is collecting a group. -/
structure Accounts (c : Cutout (σ × List (Note β)) β) (received : List (Location × Event))
    (ds : List Delivery) (handed opened : List Nat) : Prop where
  received : received = ds.map Delivery.received ++ c.held
  sent : c.sent.reverse = Delivery.arrived none ds
  returned : List.Forall₂ (Delivery.Fills c.state.2 ds) handed (Note.returned c.state.2)
  collecting : List.Forall₂ (Delivery.Fills c.state.2 ds) opened (c.frames.map Frame.buffer)
  numbers : (handed ++ opened).Perm (List.range (Note.given c.state.2).length)
  places : ∀ d ∈ ds, ∀ n, d.place = some n → n < (Note.given c.state.2).length

namespace Accounts

variable {c : Cutout (σ × List (Note β)) β} {received : List (Location × Event)}
  {ds : List Delivery} {handed opened : List Nat}

/-- Each buffer is in one place. -/
theorem nodup (h : c.Accounts received ds handed opened) : (handed ++ opened).Nodup :=
  h.numbers.nodup_iff.mpr List.nodup_range

/-- The accounts say nothing about the brackets that are open, or about where the cutout stands. -/
theorem of_same (h : c.Accounts received ds handed opened)
    {c' : Cutout (σ × List (Note β)) β} {received' : List (Location × Event)}
    (hnotes : c'.state.2 = c.state.2) (hsent : c'.sent = c.sent)
    (hbuffers : c'.frames.map Frame.buffer = c.frames.map Frame.buffer)
    (hreceived : received' = ds.map Delivery.received ++ c'.held) :
    c'.Accounts received' ds handed opened where
  received := hreceived
  sent := hsent ▸ h.sent
  returned := hnotes ▸ h.returned
  collecting := by
    rw [hnotes, hbuffers]
    exact h.collecting
  numbers := hnotes ▸ h.numbers
  places := hnotes ▸ h.places

/-- Events that are passed on go out when no group is being collected, and otherwise into the buffer
    of the innermost group. -/
theorem pass (h : c.Accounts received ds handed opened) (hp : c.pending = none)
    (ps : List (Location × Event)) :
    (c.pass (Event.unlocated ps)).Accounts (received ++ ps) (ds ++ Delivery.along opened.head? ps)
      handed opened := by
  have hheld : c.held = [] := held_of_none hp
  have hreceived : received ++ ps
      = (ds ++ Delivery.along opened.head? ps).map Delivery.received ++ [] := by
    rw [h.received, hheld, List.map_append, Delivery.map_received_along]
    simp
  have hplaces : ∀ d ∈ ds ++ Delivery.along opened.head? ps, ∀ n, d.place = some n →
      n < (Note.given c.state.2).length := by
    intro d hd n hn
    obtain hd | hd := List.mem_append.mp hd
    · exact h.places d hd n hn
    · rw [Delivery.place_along _ _ d hd] at hn
      have hmem : n ∈ handed ++ opened := List.mem_append_right _ (List.mem_of_mem_head? hn)
      exact List.mem_range.mp (h.numbers.subset hmem)
  have hcollecting := h.collecting
  -- the place where the events go is the only one where something changes
  cases hframes : c.frames with
  | nil =>
    rw [hframes] at hcollecting
    cases hcollecting
    have hpass : c.pass (Event.unlocated ps)
        = { c with sent := (Event.unlocated ps).reverse ++ c.sent } := by simp only [pass, hframes]
    rw [hpass]
    refine ⟨hreceived.trans (by rw [← hheld]; rfl), ?_, ?_, ?_, h.numbers, hplaces⟩
    · rw [List.head?_nil, Delivery.arrived_along_self, List.reverse_append, List.reverse_reverse,
        h.sent]
    · exact Delivery.forall₂_along_other h.returned (by simp) ps
    · rw [hframes]
      exact .nil
  | cons f fs =>
    rw [hframes] at hcollecting
    cases hcollecting with
    | @cons n _ ns _ hf hfs =>
      obtain ⟨-, hns, hapart⟩ := List.nodup_append.mp h.nodup
      rw [List.nodup_cons] at hns
      have hpass : c.pass (Event.unlocated ps) = { c with
          frames := { f with buffer := Sink.feed f.buffer (Event.unlocated ps) } :: fs } := by
        simp only [pass, hframes]
      rw [hpass]
      refine ⟨hreceived.trans (by rw [← hheld]; rfl), ?_, ?_, ?_, h.numbers, hplaces⟩
      · rw [List.head?_cons, Delivery.arrived_along_other (by simp), h.sent]
      · refine Delivery.forall₂_along_other h.returned (fun m hm hmn => ?_) ps
        exact hapart m hm n List.mem_cons_self (Option.some.inj hmn)
      · refine .cons (hf.along_self ps) (Delivery.forall₂_along_other hfs (fun m hm hmn => ?_) ps)
        exact hns.1 (Option.some.inj hmn ▸ hm)

/-- The events that wait are released to where events are passed on. -/
theorem release (h : c.Accounts received ds handed opened) :
    ∃ ds', c.release.Accounts received ds' handed opened := by
  cases hp : c.pending with
  | none => exact ⟨ds, by rwa [release_of_none hp]⟩
  | some p =>
    -- what waited is not received any more, until it is passed on
    let c₁ : Cutout (σ × List (Note β)) β := { c with pending := none }
    have hc₁ : c₁.deepen = { c₁ with frames := c₁.deepen.frames } := c₁.deepen_eq
    have hdeepen : c₁.deepen.Accounts (ds.map Delivery.received) ds handed opened := by
      refine h.of_same (by rw [hc₁]) (by rw [hc₁]) c₁.map_buffer_deepen ?_
      rw [hc₁]
      exact (List.append_nil _).symm
    have hpass := hdeepen.pass (by rw [hc₁]) c.held
    rw [← h.received, ← release_eq_pass hp] at hpass
    exact ⟨_, hpass⟩

/-- Nothing was passed on to a buffer that is still to be given. -/
theorem arrived_next (h : c.Accounts received ds handed opened) :
    Delivery.arrived (some (Note.given c.state.2).length) ds = [] := by
  have hnone : ds.filter (·.place = some (Note.given c.state.2).length) = [] := by
    refine List.filter_eq_nil_iff.mpr fun d hd hplace => ?_
    exact Nat.lt_irrefl _ (h.places d hd _ (of_decide_eq_true hplace))
  rw [Delivery.arrived, hnone]
  rfl

/-- A buffer that is given gets the next number. -/
theorem headed (h : c.Accounts received ds handed opened) (cutter : Cutter σ β) (head : String) :
    ∃ opened', (c.headed cutter.noting head).Accounts received ds handed opened' := by
  -- a question hands no buffer over, and what became of the others does not change
  have hfills : ∀ (note : Note β) (ns : List Nat) (bs : List β),
      List.Forall₂ (Delivery.Fills c.state.2 ds) ns bs →
        List.Forall₂ (Delivery.Fills (c.state.2 ++ [note]) ds) ns bs :=
    fun note _ _ hns => hns.imp fun _ _ hn => hn.append [note]
  have hreturned : ∀ given : Option β,
      Note.returned (c.state.2 ++ [.asked head given]) = Note.returned c.state.2 :=
    fun given => (Note.returned_append _ _).trans (List.append_nil _)
  cases hb : (cutter.cut c.state.1 head).2 with
  | none =>
    have hheaded : c.headed cutter.noting head = { c with
        state := ((cutter.cut c.state.1 head).1, c.state.2 ++ [.asked head none]) } := by
      simp only [Cutout.headed, Cutter.noting, hb, Option.map_none, Option.toList_none,
        List.nil_append]
    have hgiven : Note.given (c.state.2 ++ [.asked head none]) = Note.given c.state.2 :=
      (Note.given_append _ _).trans (List.append_nil _)
    rw [hheaded]
    refine ⟨opened, h.received, h.sent, ?_, hfills _ _ _ h.collecting, ?_, ?_⟩
    · rw [hreturned]
      exact hfills _ _ _ h.returned
    · rw [hgiven]
      exact h.numbers
    · rw [hgiven]
      exact h.places
  | some b =>
    have hheaded : c.headed cutter.noting head = { c with
        state := ((cutter.cut c.state.1 head).1, c.state.2 ++ [.asked head (some b)])
        frames := { buffer := b } :: c.frames } := by
      simp only [Cutout.headed, Cutter.noting, hb, Option.map_some, Option.toList_some,
        List.singleton_append]
    have hgiven : Note.given (c.state.2 ++ [.asked head (some b)]) = Note.given c.state.2 ++ [b] :=
      Note.given_append _ _
    rw [hheaded]
    refine ⟨(Note.given c.state.2).length :: opened, h.received, h.sent, ?_, ?_, ?_, ?_⟩
    · rw [hreturned]
      exact hfills _ _ _ h.returned
    · refine .cons ⟨b, ?_, ?_⟩ (hfills _ _ _ h.collecting)
      · rw [hgiven, List.getElem?_concat_length]
      · rw [h.arrived_next, Sink.feed_nil]
    · rw [hgiven, List.length_append, List.length_singleton, List.range_succ]
      exact List.perm_middle.trans ((h.numbers.cons _).trans (List.perm_append_singleton _ _).symm)
    · rw [hgiven, List.length_append, List.length_singleton]
      exact fun d hd n hn => Nat.lt_succ_of_lt (h.places d hd n hn)

/-- A buffer that is handed back was the innermost. -/
theorem collected (h : c.Accounts received ds handed opened) (cutter : Cutter σ β) :
    ∃ handed' opened', (c.collected cutter.noting).1.Accounts received ds handed' opened' := by
  -- if no group is being collected, or a group inside of one has closed, nothing is handed over
  cases hframes : c.frames with
  | nil =>
    have hsame : c.collected cutter.noting = (c, none) := by simp only [Cutout.collected, hframes]
    rw [hsame]
    exact ⟨handed, opened, h⟩
  | cons f fs =>
    by_cases hdepth : 1 < f.depth
    · have hless : c.collected cutter.noting
          = ({ c with frames := { f with depth := f.depth - 1 } :: fs }, none) := by
        simp only [Cutout.collected, hframes, if_pos hdepth]
      rw [hless]
      exact ⟨handed, opened, h.of_same rfl rfl (by rw [hframes]; rfl) h.received⟩
    · have hover : (c.collected cutter.noting).1 = { c with
          state := ((cutter.paste c.state.1 f.buffer).1, c.state.2 ++ [.handed f.buffer])
          frames := fs } := by
        simp only [Cutout.collected, hframes, if_neg hdepth, Cutter.noting]
      have hcollecting := h.collecting
      rw [hframes] at hcollecting
      rw [hover]
      -- the buffer of the group that has closed moves from those being filled to those handed back
      cases hcollecting with
      | @cons n _ ns _ hf hfs =>
        have hgiven : Note.given (c.state.2 ++ [.handed f.buffer]) = Note.given c.state.2 :=
          (Note.given_append _ _).trans (List.append_nil _)
        have hreturned : Note.returned (c.state.2 ++ [.handed f.buffer])
            = Note.returned c.state.2 ++ [f.buffer] := Note.returned_append _ _
        refine ⟨handed ++ [n], ns, h.received, h.sent, ?_, ?_, ?_, ?_⟩
        · rw [hreturned]
          refine List.rel_append (h.returned.imp fun _ _ hn => hn.append _) ?_
          exact .cons (hf.append _) .nil
        · exact hfs.imp fun _ _ hn => hn.append _
        · rw [hgiven, List.append_assoc]
          exact h.numbers
        · rw [hgiven]
          exact h.places

end Accounts

/-- Whether there are accounts of the events that were received. -/
def Accounted (c : Cutout (σ × List (Note β)) β) (received : List (Location × Event)) : Prop :=
  ∃ ds handed opened, c.Accounts received ds handed opened

/-! ### Receiving an event -/

/-- Once nothing waits any more, one event is passed on. -/
theorem Accounted.send {c : Cutout (σ × List (Note β)) β} {received : List (Location × Event)}
    (h : c.Accounted received) (hp : c.pending = none) (l : Location) (e : Event) :
    (c.send l e).Accounted (received ++ [(l, e)]) := by
  obtain ⟨ds, handed, opened, h⟩ := h
  rw [send_eq_pass]
  exact ⟨_, handed, opened, h.pass hp [(l, e)]⟩

/-- A release passes on what was waiting, so everything stays accounted for. -/
theorem Accounted.release {c : Cutout (σ × List (Note β)) β} {received : List (Location × Event)}
    (h : c.Accounted received) : c.release.Accounted received := by
  obtain ⟨ds, handed, opened, h⟩ := h
  obtain ⟨ds', h⟩ := h.release
  exact ⟨ds', handed, opened, h⟩

/-- **The accounts are kept.** Whatever event comes, it is passed on where it belongs, or waits. -/
theorem Accounted.receive {c : Cutout (σ × List (Note β)) β} {received : List (Location × Event)}
    (h : c.Accounted received) (cutter : Cutter σ β) (e : Event) :
    (c.receive cutter.noting e).1.Accounted (received ++ Event.located c.here [e]) := by
  cases e with
  | locate l =>
    obtain ⟨ds, handed, opened, h⟩ := h
    exact ⟨ds, handed, opened, h.of_same rfl rfl rfl ((List.append_nil _).trans h.received)⟩
  | opening d =>
    obtain ⟨ds, handed, opened, h⟩ := h.release
    have hreceived := h.received
    rw [held_release, List.append_nil] at hreceived
    refine ⟨ds, handed, opened, h.of_same rfl rfl rfl ?_⟩
    rw [← hreceived, ← here_release c]
    rfl
  | comment t =>
    cases hp : c.pending with
    | none =>
      simp only [Cutout.receive, hp]
      exact h.send hp c.here _
    | some p =>
      obtain ⟨ds, handed, opened, h⟩ := h
      simp only [Cutout.receive, hp]
      refine ⟨ds, handed, opened, h.of_same rfl rfl rfl ?_⟩
      rw [h.received]
      simp [held, hp, Event.located]
  | atom v =>
    cases hp : c.pending with
    | none =>
      simp only [Cutout.receive, hp]
      exact h.send hp c.here _
    | some p =>
      -- the buffer is given first, so the bracket that waits goes into it
      obtain ⟨ds, handed, opened, h⟩ := h
      obtain ⟨opened', h⟩ := h.headed cutter v
      rw [receive_atom_of_some cutter.noting hp]
      exact (Accounted.release ⟨ds, handed, opened', h⟩).send (pending_release _) c.here _
  | closing d =>
    obtain ⟨ds, handed, opened, h⟩ := h.release.send (pending_release c) c.here (.closing d)
    obtain ⟨handed', opened', h⟩ := h.collected cutter
    exact ⟨ds, handed', opened', h⟩

end Cutout

end

end Formwork
