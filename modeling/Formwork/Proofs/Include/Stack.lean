import Mathlib.Data.List.Perm.Subperm
import Formwork.Proofs.Cutout.Cutters
import Formwork.Proofs.Cutout.Moments

namespace Formwork

/-!
# What is going through an includer

The documents that are going through at once are distinct, so there are no more of them than
documents. Only the contents of `no-include` forms can pile up.

* `Includer.Sound` — what holds of the stack at every moment.
* `Includer.tracks_stack` — every answer puts an entry on the stack and takes it off.
* `Includer.exists_run_iff_bounded` — a run ends exactly when the entries of `no-include` forms stay
  bounded.
-/

namespace Includer

variable {docs : List (String × String)} {s : Includer}

/-- The documents that are going through are distinct documents. -/
structure Sound (docs : List (String × String)) (s : Includer) : Prop where
  nodup : (s.included.map Included.id).Nodup
  known : ∀ d ∈ s.included, (docs.lookup d.id).isSome

/-- Nothing going through is fine. -/
theorem sound_of_empty (h : s.stack = []) : s.Sound docs where
  nodup := by simp [included, h]
  known := by simp [included, h]

/-- No more documents go through than there are. -/
theorem Sound.length_included_le (h : s.Sound docs) : s.included.length ≤ docs.length := by
  have hsub : s.included.map Included.id ⊆ docs.map Prod.fst := by
    intro id hid
    obtain ⟨d, hd, rfl⟩ := List.mem_map.mp hid
    obtain ⟨p, hp, hname⟩ := List.lookup_isSome_iff.mp (h.known d hd)
    exact List.mem_map.mpr ⟨p, hp, (by simpa using hname : d.id = p.1).symm⟩
  have hlen := (List.subperm_of_subset h.nodup hsub).length_le
  rwa [List.length_map, List.length_map] at hlen

/-- The entries of the stack are the documents and the contents of `no-include` forms. -/
theorem length_stack (s : Includer) :
    s.stack.length = s.included.length + s.stack.count none := by
  rw [included]
  induction s.stack with
  | nil => rfl
  | cons e stack ih =>
    cases e with
    | none => simp [ih, Nat.add_assoc]
    | some d => simp [ih, Nat.add_right_comm]

/-- A document that is not active is not among those that go through. -/
theorem not_mem_of_isActive {id : String} (h : s.isActive id = false) :
    id ∉ s.included.map Included.id := by
  intro hmem
  obtain ⟨d, hd, hid⟩ := List.mem_map.mp hmem
  have hactive : s.included.any (·.id = id) = true :=
    List.any_eq_true.mpr ⟨d, hd, by simpa using hid⟩
  rw [isActive, hactive, Bool.or_true] at h
  exact absurd h (by simp)

/-- The documents are found by their names only. -/
theorem lookup_of_fetch {id text : String} (h : (Documents.ofList docs).fetch id = .ok text) :
    docs.lookup id = some text := by
  simp only [Documents.ofList] at h
  split at h
  case h_1 text' hlookup => exact hlookup.trans (congrArg some (Except.ok.inj h))
  case h_2 => exact absurd h (by simp)

/-- The stack stays sound when a document that is not active begins to go through. -/
theorem Sound.including (h : s.Sound docs) {form : Node} {id text : String} {modulesOnly : Bool}
    (hactive : s.isActive id = false) (hfetch : (Documents.ofList docs).fetch id = .ok text) :
    (s.including form id text modulesOnly).Sound docs := by
  constructor
  · exact List.nodup_cons.mpr ⟨not_mem_of_isActive hactive, h.nodup⟩
  · intro d hd
    obtain rfl | hd := List.mem_cons.mp hd
    · rw [lookup_of_fetch hfetch]
      rfl
    · exact h.known d hd

/-- A document that begins to go through takes one of the levels that there are for documents. -/
theorem Sound.exists_level {form : Node} {id text : String} {modulesOnly : Bool}
    (h : (s.including form id text modulesOnly).Sound docs) {room : Nat}
    (hroom : docs.length ≤ room + s.included.length) :
    ∃ room', room' + 1 = room ∧
      docs.length ≤ room' + (s.including form id text modulesOnly).included.length := by
  have hfits := h.length_included_le
  have hlength : (s.including form id text modulesOnly).included.length
      = s.included.length + 1 := rfl
  rw [hlength] at hfits ⊢
  exact ⟨room - 1, by omega, by omega⟩

/-- The stack stays sound when its first entry is taken off. -/
theorem Sound.tail (h : s.Sound docs) : ({ s with stack := s.stack.tail }).Sound docs := by
  have hsub : (s.stack.tail.filterMap id).Sublist (s.stack.filterMap id) :=
    (List.tail_sublist _).filterMap _
  exact ⟨h.nodup.sublist (hsub.map _), fun d hd => h.known d (hsub.subset hd)⟩

/-- Every answer puts an entry on the stack, which is taken off when it has gone through. -/
theorem tracks_stack (docs : Documents) : (cutter docs).Tracks stack where
  cut _ _ := rfl
  refused s b h := by
    obtain ⟨_, _, -, hp⟩ | ⟨_, -, -, -, hp⟩ | ⟨_, _, _, _, -, -, -, -, hp⟩ := paste_cases docs s b
    · rw [hp]
    · rw [hp] at h
      exact absurd h (by simp)
    · rw [hp] at h
      exact absurd h (by simp)
  answered s b es h := by
    -- an answer puts one entry on the stack: none for the contents of a form, or the document
    obtain ⟨_, _, -, hp⟩ | ⟨_, -, -, -, hp⟩ | ⟨form, id, text, m, -, -, -, -, hp⟩ :=
      paste_cases docs s b
    · rw [hp] at h
      exact absurd h (by simp)
    · exact ⟨none, by rw [hp]⟩
    · exact ⟨some { id, modulesOnly := m }, by rw [hp]; rfl⟩
  pasted _ := rfl

/-- Soundness is kept. -/
theorem keeps_sound (docs : List (String × String)) :
    (cutter (.ofList docs)).Keeps (Sound docs) where
  cut _ _ h := h
  paste s b h := by
    -- only a document that is not active and that there is gets onto the stack
    obtain ⟨_, _, -, hp⟩ | ⟨_, -, -, -, hp⟩ | ⟨_, _, _, _, -, -, hactive, hfetch, hp⟩ :=
      paste_cases (.ofList docs) s b
    · rw [hp]
      exact ⟨h.nodup, h.known⟩
    · rw [hp]
      exact ⟨h.nodup, h.known⟩
    · rw [hp]
      exact h.including hactive hfetch
  pasted s h := h.tail

/-- **Only the contents of `no-include` forms can pile up.** A run ends exactly when it never has
    more than a fixed number of them going through at once. -/
theorem exists_run_iff_bounded (hs : s.Sound docs) (es : List Event) :
    (∃ levels, ((cutter (.ofList docs)).run levels s es).isSome) ↔
      ∃ bound, ∀ m : Moment Includer Builder,
        Moment.Leads (cutter (.ofList docs)) (.start s es) m →
          m.cutout.state.stack.count none ≤ bound := by
  constructor
  · intro hends
    obtain ⟨last, hleads, hdone⟩ := ((tracks_stack _).exists_run_iff s es).mp hends
    exact Moment.exists_bound (fun m => m.cutout.state.stack.count none) hleads hdone
  · rintro ⟨bound, hb⟩
    -- the documents on the stack are bounded anyway, so the whole stack is
    have hstack : ∀ m : Moment Includer Builder,
        Moment.Leads (cutter (.ofList docs)) (.start s es) m →
          m.cutout.state.stack.length ≤ docs.length + bound := by
      intro m hm
      rw [length_stack]
      exact Nat.add_le_add ((keeps_sound docs).leads hm hs).length_included_le (hb m hm)
    obtain ⟨c, hc⟩ :=
      (tracks_stack (.ofList docs)).exists_feed_start hstack (Nat.le_add_right _ _)
    exact ⟨docs.length + bound, by rw [Cutter.run, hc]; rfl⟩

end Includer

end Formwork
