import Formwork.Proofs.Provenance.CallSites
import Formwork.Proofs.Template.Binding

namespace Formwork

/-!
# No placeholder is left

What a filled-in body replays is made of two kinds of pieces: events that the body writes, and the
nodes that its placeholders stand for. When a template is read without a report and its shape
accepts an invocation, every placeholder of the body stands for something, so an atom `@name` in an
expansion is one that the caller or a default has written.

* `Substitution.events_eq_pieces` — what is replayed, piece by piece.
* `Template.exists_value?_of_declared` — every placeholder of the body has a value.
* `Template.transform_fills` — so none of the pieces that the body writes is a placeholder.
-/

/-! ### Atoms in events -/

namespace Node

/-- The events of a node write the atoms in it. -/
theorem exists_atom_of_mem_events {n : Node} {v : String} (h : .atom v ∈ n.events) :
    ∃ a : Atom, atom a ∈ n.preorder ∧ a.value = v := by
  -- the events of a group are those of its children, between two that are of no atom
  induction n using induct with
  | atom a =>
    refine ⟨a, List.mem_singleton_self _, ?_⟩
    simpa [events, eq_comm] using h
  | comment c => simp [events] at h
  | group d cs l s ih =>
    have hchildren : .atom v ∈ eventsAll cs := by simpa [events] using h
    rw [eventsAll_eq_flatMap] at hchildren
    obtain ⟨n, hn, hv⟩ := List.mem_flatMap.mp hchildren
    obtain ⟨a, ha, hvalue⟩ := ih n hn hv
    refine ⟨a, ?_, hvalue⟩
    rw [preorder_group]
    exact List.mem_cons_of_mem _ (List.mem_flatMap.mpr ⟨n, hn, ha⟩)

theorem exists_atom_of_mem_eventsAll {ns : List Node} {v : String} (h : .atom v ∈ eventsAll ns) :
    ∃ a : Atom, atom a ∈ ns.flatMap preorder ∧ a.value = v := by
  rw [eventsAll_eq_flatMap] at h
  obtain ⟨n, hn, hv⟩ := List.mem_flatMap.mp h
  obtain ⟨a, ha, hvalue⟩ := exists_atom_of_mem_events hv
  exact ⟨a, List.mem_flatMap.mpr ⟨n, hn, ha⟩, hvalue⟩

end Node

/-! ### The pieces of an expansion -/

namespace Substitution

/-- A piece of what a filled-in body replays. -/
inductive Piece where
  /-- An event that the body writes, seen from the call. -/
  | written (e : Event)
  /-- The nodes that an atom of the body stands for. -/
  | filled (value : String) (nodes : List Node)

/-- What a piece replays. -/
def Piece.events : Piece → List Event
  | written e => [e]
  | filled _ ns => Node.eventsAll ns

variable (s : Substitution)

/-- The piece that takes the place of an event of the body. -/
def piece : Event → Piece
  | .locate l => .written (.locate (s.relocate l))
  | .atom v =>
    match s.bound? v with
    | some ns => .filled v ns
    | none => .written (.atom v)
  | e => .written e

/-- The pieces of a filled-in body, in order. -/
def pieces : List Piece := (Node.eventsAll s.body).map s.piece

/-- **What is replayed** is what the pieces replay, one after another. -/
theorem events_eq_pieces : s.events = s.pieces.flatMap Piece.events := by
  unfold events pieces
  rw [List.flatMap_map]
  apply List.flatMap_congr
  intro e _
  cases e with
  | locate | opening | comment | closing => rfl
  | atom v =>
    simp only [replace, piece]
    cases s.bound? v <;> rfl

variable {s}

/-- An atom that the body writes is one of the body that stands for nothing. -/
theorem of_written_atom {v : String} (h : .written (.atom v) ∈ s.pieces) :
    s.bound? v = none ∧ ∃ a : Atom, .atom a ∈ s.body.flatMap Node.preorder ∧ a.value = v := by
  obtain ⟨e, he, hpiece⟩ := List.mem_map.mp h
  cases e with
  | locate | opening | comment | closing => cases hpiece
  | atom u =>
    unfold piece at hpiece
    cases hu : s.bound? u with
    | some ns => simp [hu] at hpiece
    | none =>
      simp only [hu, Piece.written.injEq, Event.atom.injEq] at hpiece
      subst hpiece
      exact ⟨hu, Node.exists_atom_of_mem_eventsAll he⟩

/-- What is filled in is what an atom stands for. -/
theorem of_filled {v : String} {ns : List Node} (h : .filled v ns ∈ s.pieces) :
    s.bound? v = some ns := by
  obtain ⟨e, -, hpiece⟩ := List.mem_map.mp h
  cases e with
  | locate | opening | comment | closing => cases hpiece
  | atom u =>
    unfold piece at hpiece
    cases hu : s.bound? u with
    | none => simp [hu] at hpiece
    | some ms =>
      simp only [hu, Piece.filled.injEq] at hpiece
      obtain ⟨rfl, rfl⟩ := hpiece
      exact hu

/-- A placeholder stands for the value of its name. -/
theorem bound?_of_named? {v name : String} (h : Atom.named? '@' v = some name) :
    s.bound? v = s.bindings.value? name := by
  obtain ⟨hv, -⟩ := Atom.named?_eq_some_iff.mp h
  unfold bound?
  simp only [hv, String.ofList_toList]

end Substitution

/-! ### Every placeholder has a value -/

namespace Template

variable {t : Template} {inv : Invocation}

/-- When nothing is reported of the body, the placeholders in it are declared. -/
theorem declares_of_unbound_eq_nil (h : t.unbound = []) {n : Node}
    (hn : n ∈ t.body.flatMap Node.preorder) {name : String} (hname : n.placeholder? = some name) :
    t.declares name = true := by
  have hnone := List.filterMap_eq_nil_iff.mp h n hn
  rw [hname] at hnone
  by_contra hundeclared
  simp [hundeclared] at hnone

/-- **Every placeholder of the body has a value.** -/
theorem exists_value?_of_declared (ht : t.Ordered) (h : t.shape.Accepts inv)
    (hunbound : t.unbound = []) {n : Node} (hn : n ∈ t.body.flatMap Node.preorder)
    {name : String} (hname : n.placeholder? = some name) :
    ∃ ns, (t.bind inv).value? name = some ns := by
  have hdeclares := declares_of_unbound_eq_nil hunbound hn hname
  exact Option.isSome_iff_exists.mp ((value?_bind_isSome_iff ht h name).mpr hdeclares)

/-- So an atom of the body that stands for nothing is no placeholder. -/
theorem named?_eq_none_of_bound?_eq_none (ht : t.Ordered) (h : t.shape.Accepts inv)
    (hunbound : t.unbound = []) {a : Atom} (ha : .atom a ∈ t.body.flatMap Node.preorder)
    (hfree : (t.transform inv).bound? a.value = none) : Atom.named? '@' a.value = none := by
  cases hname : Atom.named? '@' a.value with
  | none => rfl
  | some name =>
    have hplaceholder : (Node.atom a).placeholder? = some name := hname
    obtain ⟨ns, hns⟩ := exists_value?_of_declared ht h hunbound ha hplaceholder
    have hbound : (t.transform inv).bound? a.value = (t.bind inv).value? name :=
      Substitution.bound?_of_named? hname
    rw [hfree, hns] at hbound
    cases hbound

/-- What is filled in was supplied, or is a default that counts. -/
theorem sources_of_bound? {v : String} {ns : List Node}
    (h : (t.transform inv).bound? v = some ns) :
    ∀ n ∈ ns, n ∈ inv.supplied ∨ t.FallsBackOn inv n := by
  intro n hn
  unfold Substitution.bound? at h
  split at h
  case h_1 name _ => exact t.bind_sources inv _ (mem_of_lookup h) n hn
  case h_2 => cases h

/-- What filling in the body of a template comes to when no placeholder is left. -/
structure FillsIn (t : Template) (inv : Invocation) : Prop where
  /-- Binding yields a value for every placeholder that occurs in the body, at any depth. -/
  bound : ∀ n ∈ t.body.flatMap Node.preorder, ∀ name, n.placeholder? = some name →
    ∃ ns, (t.bind inv).value? name = some ns
  /-- What is replayed is what the body writes, with values between. -/
  pieces : (t.transform inv).events
    = (t.transform inv).pieces.flatMap Substitution.Piece.events
  /-- No atom that the body writes is a placeholder, -/
  written : ∀ v, .written (.atom v) ∈ (t.transform inv).pieces → Atom.named? '@' v = none
  /-- and the values are what the caller supplied, or defaults that count. -/
  filled : ∀ v ns, .filled v ns ∈ (t.transform inv).pieces →
    ∀ n ∈ ns, n ∈ inv.supplied ∨ t.FallsBackOn inv n
  /-- So a placeholder among the nodes of the expansion, at any depth, is a part of what the caller
      supplied or of a default that counts. -/
  inside : ∃ ns, Event.Replays (t.transform inv).events ns ∧
    ∀ m ∈ ns.flatMap Node.preorder, ∀ name, m.placeholder? = some name →
      m ∈ inv.supplied.flatMap Node.preorder ∨ ∃ d, t.FallsBackOn inv d ∧ m ∈ d.preorder

/-- **No placeholder is left.** For every template that is read without a report and every
    invocation that its shape accepts, all placeholders of the body are bound, so an atom `@name` in
    the expansion lies in an argument or in a default that a parameter falls back on. -/
theorem transform_fills {definition : Node} (hdefine : define definition = .ok (t, []))
    (haccepted : t.shape.violations inv = []) : t.FillsIn inv := by
  obtain ⟨ht, hunbound⟩ := ordered_of_define hdefine
  have h := Shape.violations_eq_nil_iff.mp haccepted
  refine
    { bound := fun n hn name hname => exists_value?_of_declared ht h hunbound.symm hn hname
      pieces := Substitution.events_eq_pieces _
      written := ?_
      filled := fun v ns hfilled => sources_of_bound? (Substitution.of_filled hfilled)
      inside := ⟨_, Substitution.replays_events (t.transform inv), ?_⟩ }
  · intro v hv
    obtain ⟨hfree, a, ha, rfl⟩ := Substitution.of_written_atom hv
    exact named?_eq_none_of_bound?_eq_none ht h hunbound.symm ha hfree
  · intro m hm name hname
    rcases Substitution.nodesAll_sources t.body m hm with ⟨b, hb, hvalue⟩ | ⟨k, hk, hmoves⟩
    · -- a part of a value
      obtain ⟨n, hn, hm⟩ := List.mem_flatMap.mp hvalue
      rcases t.bind_sources inv b hb n hn with hsupplied | hdefault
      · exact .inl (List.mem_flatMap.mpr ⟨n, hsupplied, hm⟩)
      · exact .inr ⟨n, hdefault, hm⟩
    · -- a node of the body: only an atom can be a placeholder, and this one stands for nothing
      cases hmoves with
      | atom hfree =>
        have hnone := named?_eq_none_of_bound?_eq_none ht h hunbound.symm hk hfree
        exact absurd (hname.symm.trans hnone) (by simp)
      | comment => cases hname
      | group => cases hname

/-- In the expansion of a template with every form of parameter the only placeholder that is left is
    the one that the caller supplies. -/
theorem transform_fills_everyForm :
    define everyFormDefinition = .ok (everyForm, []) ∧
      everyForm.shape.violations everyFormCall = [] ∧ everyForm.FillsIn everyFormCall ∧
      (everyForm.transform everyFormCall).events.filter (fun e =>
          match e with
          | .atom v => (Atom.named? '@' v).isSome
          | _ => false)
        = [.atom "@z"] := by
  have hdefine : define everyFormDefinition = .ok (everyForm, []) := by rfl
  have haccepted : everyForm.shape.violations everyFormCall = [] := by rfl
  exact ⟨hdefine, haccepted, transform_fills hdefine haccepted, by decide +kernel⟩

end Template

end Formwork
