import Formwork.Proofs.Cutout.Simulation
import Formwork.Proofs.Include.Stack

namespace Formwork

/-!
# Documents that keep `no-include` in place

Where each atom `no-include` of the documents is the head of its group, no such atom comes out of a
document that is included: the group is dropped. Then replacing the forms ends, because every
`no-include` form of the root that is replaced takes its head away and none comes back.

* `Node.HeadsOnly` — the condition on a node.
* `Includer.rewrite_included` — inside a document everything ends, and no `no-include` comes out.
* `Includer.rewrite_root` — in the root everything ends too, and there are no more atoms
  `no-include` after than before.
-/

namespace Node

/-! ### Counting -/

mutual

/-- The number of atoms `no-include` in a node. -/
def rootOnlys : Node → Nat
  | atom a => if a.value = Includer.rootOnlyWord then 1 else 0
  | comment _ => 0
  | group _ cs _ _ => rootOnlysAll cs

/-- The number of atoms `no-include` in nodes. -/
def rootOnlysAll : List Node → Nat
  | [] => 0
  | n :: ns => rootOnlys n + rootOnlysAll ns

end

/-- The words of two lists in a row are counted together. -/
@[simp] theorem rootOnlysAll_append (ns ms : List Node) :
    rootOnlysAll (ns ++ ms) = rootOnlysAll ns + rootOnlysAll ms := by
  induction ns with
  | nil => rw [List.nil_append, rootOnlysAll, Nat.zero_add]
  | cons n ns ih => rw [List.cons_append, rootOnlysAll, ih, rootOnlysAll, Nat.add_assoc]

mutual

/-- Quotes do not matter to the count. -/
theorem rootOnlys_plain : ∀ n : Node, n.plain.rootOnlys = n.rootOnlys
  | .atom _ => rfl
  | .comment _ => rfl
  | .group _ cs _ _ => rootOnlysAll_plainAll cs

/-- How atoms were quoted does not matter. -/
@[simp] theorem rootOnlysAll_plainAll : ∀ ns : List Node,
    rootOnlysAll (plainAll ns) = rootOnlysAll ns
  | [] => rfl
  | n :: ns => by
    rw [plainAll, rootOnlysAll, rootOnlys_plain n, rootOnlysAll_plainAll ns, rootOnlysAll]

end

/-- What is left out makes the count no greater. -/
theorem rootOnlysAll_le_of_sublist {ns ms : List Node} (h : ns.Sublist ms) :
    rootOnlysAll ns ≤ rootOnlysAll ms := by
  induction h with
  | slnil => exact Nat.le_refl _
  | cons n _ ih => exact Nat.le_trans ih (Nat.le_add_left _ _)
  | cons_cons n _ ih => exact Nat.add_le_add_left ih _

/-- Without its head, a `no-include` form has one atom `no-include` less. -/
theorem rootOnlysAll_tail_lt {form : Node} (h : form.headName? = some Includer.rootOnlyWord) :
    rootOnlysAll form.tail < form.rootOnlys := by
  cases form with
  | atom a => simp [headName?, head?, exprs, children] at h
  | comment c => simp [headName?, head?, exprs, children] at h
  | group d cs l s =>
    have hsub : (cs.filter fun c => !c.isComment).Sublist cs := List.filter_sublist
    have hle := rootOnlysAll_le_of_sublist hsub
    simp only [headName?, head?, exprs, children] at h
    simp only [tail, exprs, children, rootOnlys]
    -- the head is the word itself, and it is counted in the form but not in its tail
    cases hx : cs.filter fun c => !c.isComment with
    | nil => simp [hx] at h
    | cons n ns =>
      obtain ⟨a, rfl, ha⟩ : ∃ a, n = .atom a ∧ a.value = Includer.rootOnlyWord := by
        cases n <;> simp_all [atom?]
      rw [hx, rootOnlysAll, rootOnlys, if_pos ha] at hle
      rw [List.drop_one, List.tail_cons]
      omega

/-! ### Heads -/

mutual

/-- Whether each atom `no-include` in a node is the head of its group. -/
def HeadsOnly : Node → Prop
  | atom a => a.value ≠ Includer.rootOnlyWord
  | comment _ => True
  | group _ cs _ _ => HeadFirst cs

/-- Whether each atom `no-include` in nodes is the head of its group. -/
def HeadsOnlyAll : List Node → Prop
  | [] => True
  | n :: ns => HeadsOnly n ∧ HeadsOnlyAll ns

/-- Whether each atom `no-include` in the children of a group is the head of its group, which may be
    this one. -/
def HeadFirst : List Node → Prop
  | [] => True
  | atom _ :: ns => HeadsOnlyAll ns
  | comment _ :: ns => HeadFirst ns
  | group _ cs _ _ :: ns => HeadFirst cs ∧ HeadsOnlyAll ns

end

/-- The word is only a head in nodes when it is only a head in each of them. -/
theorem headsOnlyAll_iff {ns : List Node} : HeadsOnlyAll ns ↔ ∀ n ∈ ns, HeadsOnly n := by
  induction ns with
  | nil => simp [HeadsOnlyAll]
  | cons n ns ih => simp [HeadsOnlyAll, ih]

mutual

/-- Whether it is does not depend on quotes. -/
theorem headsOnly_plain : ∀ n : Node, n.plain.HeadsOnly ↔ n.HeadsOnly
  | .atom _ => Iff.rfl
  | .comment _ => Iff.rfl
  | .group _ cs _ _ => headFirst_plainAll cs

/-- How atoms were quoted does not matter. -/
theorem headsOnlyAll_plainAll : ∀ ns : List Node, HeadsOnlyAll (plainAll ns) ↔ HeadsOnlyAll ns
  | [] => Iff.rfl
  | n :: ns => and_congr (headsOnly_plain n) (headsOnlyAll_plainAll ns)

/-- Neither does it in the children of a group. -/
theorem headFirst_plainAll : ∀ ns : List Node, HeadFirst (plainAll ns) ↔ HeadFirst ns
  | [] => Iff.rfl
  | .atom _ :: ns => headsOnlyAll_plainAll ns
  | .comment _ :: ns => headFirst_plainAll ns
  | .group _ cs _ _ :: ns => and_congr (headFirst_plainAll cs) (headsOnlyAll_plainAll ns)

end

/-- A group with another head has no atom `no-include` right inside. -/
theorem headsOnlyAll_of_headFirst {d : Delim} {cs : List Node} {l s : Location}
    (h : HeadFirst cs) (hhead : (group d cs l s).headName? ≠ some Includer.rootOnlyWord) :
    HeadsOnlyAll cs := by
  induction cs with
  | nil => trivial
  | cons c cs ih =>
    cases c with
    | atom a =>
      refine ⟨fun ha => hhead ?_, h⟩
      simp [headName?, head?, exprs, children, isComment, atom?, ha]
    | comment c =>
      refine ⟨trivial, ih h ?_⟩
      simpa [headName?, head?, exprs, children, isComment] using hhead
    | group d' cs' l' s' => exact h

end Node

namespace Includer

variable {docs : List (String × String)} {limit : Nat}

/-- Whether each atom `no-include` of the documents is the head of its group. -/
def Tidy (docs : List (String × String)) (limit : Nat) : Prop :=
  ∀ id text, docs.lookup id = some text →
    ∀ base, Node.HeadsOnlyAll (parse { origin := id, base, limit } text).1

/-- The nodes of a tidy document, all of them or those that a module include keeps. -/
theorem Tidy.spliced (h : Tidy docs limit) {s : Includer} (hs : s.limit = limit) {form : Node}
    {id text : String} {modulesOnly : Bool} (hid : docs.lookup id = some text) :
    Node.HeadsOnlyAll (s.spliced form id text modulesOnly).1 := by
  have hall := h id text hid (some form.location)
  subst hs
  simp only [Includer.spliced]
  split
  · rw [Node.headsOnlyAll_iff] at hall ⊢
    exact fun n hn => hall n (List.mem_filter.mp hn).1
  · exact hall

/-- What a run of an includer leaves as it was. -/
structure Alike (s s' : Includer) : Prop where
  stack : s'.stack = s.stack
  limit : s'.limit = s.limit

namespace Alike

/-- Doing nothing leaves all as it was. -/
theorem refl (s : Includer) : Alike s s := ⟨rfl, rfl⟩

/-- Runs may follow one another. -/
theorem trans {s s' s'' : Includer} (h : Alike s s') (h' : Alike s' s'') : Alike s s'' :=
  ⟨h'.stack.trans h.stack, h'.limit.trans h.limit⟩

/-- After a run the same documents are going through. -/
theorem included {s s' : Includer} (h : Alike s s') : s'.included = s.included := by
  rw [Includer.included, h.stack, Includer.included]

/-- So one is in the root document after it when one was before. -/
theorem inRoot {s s' : Includer} (h : Alike s s') : s'.inRoot = s.inRoot := by
  rw [Includer.inRoot, h.included, Includer.inRoot]

/-- Documents that were distinct and known still are. -/
theorem sound {s s' : Includer} (h : Alike s s') (hs : s.Sound docs) : s'.Sound docs := by
  constructor
  · rw [h.included]
    exact hs.nodup
  · rw [h.included]
    exact hs.known

/-- An answer leaves the stack as it was, once it has gone through. -/
theorem pasted {s s' s'' : Includer} {e : Option Included} (h : Alike s' s'')
    (hstack : s'.stack = e :: s.stack) (hlimit : s'.limit = s.limit) :
    Alike s { s'' with stack := s''.stack.tail } :=
  ⟨by rw [h.stack, hstack, List.tail_cons], h.limit.trans hlimit⟩

end Alike

/-- Asking about a head changes nothing. -/
theorem ask_fst (docs : Documents) (s : Includer) (head : Option String) :
    ((cutter docs).ask s head).1 = s := by
  cases head <;> rfl

/-- A group that is left alone has another head than `no-include`. -/
theorem headName?_ne_of_ask {docs : Documents} {s : Includer} {head : Option String}
    (h : ((cutter docs).ask s head).2 = false) : head ≠ some rootOnlyWord := by
  rintro rfl
  simp [Cutter.ask, cutter] at h

/-! ### Inside a document -/

section

variable {replay : List Node → Includer → Option (Includer × List Node)}

/-- What is shown of a replay inside a document: it ends, and where the nodes have `no-include` for
    heads only, none comes out. -/
def EndsInside (docs : List (String × String)) (limit room : Nat)
    (replay : List Node → Includer → Option (Includer × List Node)) : Prop :=
  ∀ ns s, s.Sound docs → s.inRoot = false → s.limit = limit →
    docs.length ≤ room + s.included.length →
      ∃ s' ms, replay ns s = some (s', ms) ∧ Alike s s' ∧
        (Node.HeadsOnlyAll ns → Node.rootOnlysAll ms = 0)

/-- A document goes through to its end, and no atom `no-include` comes out. -/
theorem replay_including (form : Node) (modulesOnly : Bool) (hdocs : Tidy docs limit) {room : Nat}
    (hreplay : ∀ room', room' + 1 = room → EndsInside docs limit room' replay) {s : Includer}
    (hs : s.Sound docs) (hlimit : s.limit = limit) (hroom : docs.length ≤ room + s.included.length)
    {id text : String} (hactive : s.isActive id = false)
    (hfetch : (Documents.ofList docs).fetch id = .ok text) :
    ∃ s' ms, replay (Builder.build (Node.eventsAll (s.spliced form id text modulesOnly).1))
        (s.including form id text modulesOnly) = some (s', ms) ∧
      Alike s ((cutter (.ofList docs)).pasted s') ∧ Node.rootOnlysAll ms = 0 := by
  have hsound : (s.including form id text modulesOnly).Sound docs := hs.including hactive hfetch
  -- the document needs room, so there is a level for it
  obtain ⟨room', hlevel, hroom'⟩ := hsound.exists_level hroom
  obtain ⟨s', ms, hms, halike, hcount⟩ := hreplay room' hlevel
    (Node.plainAll (s.spliced form id text modulesOnly).1) _ hsound rfl hlimit hroom'
  rw [Builder.build_eventsAll]
  refine ⟨s', ms, hms, halike.pasted rfl rfl, hcount ?_⟩
  exact (Node.headsOnlyAll_plainAll _).mpr (hdocs.spliced hlimit (lookup_of_fetch hfetch))

/-- What takes the place of a group inside a document has no atom `no-include`. -/
theorem replace_included (hdocs : Tidy docs limit) {room : Nat}
    (hreplay : ∀ room', room' + 1 = room → EndsInside docs limit room' replay) {s : Includer}
    (hs : s.Sound docs) (hin : s.inRoot = false) (hlimit : s.limit = limit)
    (hroom : docs.length ≤ room + s.included.length) (g : Node) :
    ∃ s' ms, (cutter (.ofList docs)).replace replay g s = some (s', ms) ∧ Alike s s' ∧
      Node.rootOnlysAll ms = 0 := by
  obtain ⟨_, _, -, hp⟩ | ⟨form, -, -, hroot, -⟩ | ⟨form, id, text, m, -, -, hactive,
    hfetch, hp⟩ := paste_cases (.ofList docs) s (Builder.holding g)
  · exact ⟨_, [], Cutter.replace_of_none hp, ⟨rfl, rfl⟩, rfl⟩
  · exact absurd (hin.symm.trans hroot) (by simp)
  · obtain ⟨s', ms, hms, halike, hcount⟩ := replay_including form m
      hdocs hreplay hs hlimit hroom hactive hfetch
    exact ⟨_, ms, by rw [Cutter.replace_of_some hp, hms]; rfl, halike, hcount⟩

mutual

/-- A node of an included document comes to an end, and leaves no `no-include` where they only stand
    as heads. -/
theorem rewriteNode_included (hdocs : Tidy docs limit) {room : Nat}
    (hreplay : ∀ room', room' + 1 = room → EndsInside docs limit room' replay) :
    ∀ (n : Node) (s : Includer), s.Sound docs → s.inRoot = false → s.limit = limit →
      docs.length ≤ room + s.included.length →
        ∃ s' ms, (cutter (.ofList docs)).rewriteNode replay n s = some (s', ms) ∧ Alike s s' ∧
          (n.HeadsOnly → Node.rootOnlysAll ms = 0)
  | .atom a, s, _, _, _, _ => by
    refine ⟨s, _, rfl, .refl s, fun ha => ?_⟩
    have hvalue : a.value ≠ rootOnlyWord := ha
    simp [Node.rootOnlysAll, Node.rootOnlys, hvalue]
  | .comment _, s, _, _, _, _ => ⟨s, _, rfl, .refl s, fun _ => rfl⟩
  | .group d cs l stop, s, hs, hin, hlimit, hroom => by
    obtain ⟨s', ms, hms, halike, hcount⟩ :=
      rewriteAll_included hdocs hreplay cs s hs hin hlimit hroom
    rw [Cutter.rewriteNode, ask_fst]
    simp only [hms, Option.bind_some]
    split
    case isTrue =>
      -- a form: what was inside it is gone, whatever it was
      obtain ⟨s'', ks, hks, halike', hcount'⟩ := replace_included hdocs hreplay (halike.sound hs)
        (halike.inRoot.trans hin) (halike.limit.trans hlimit) (by rwa [halike.included])
        (.group d ms l stop)
      exact ⟨s'', ks, hks, halike.trans halike', fun _ => hcount'⟩
    case isFalse hask =>
      -- no form, so the head of the group is no `no-include` either
      refine ⟨s', _, rfl, halike, fun hfirst => ?_⟩
      have hhead := headName?_ne_of_ask (Bool.eq_false_iff.mpr hask)
      simpa [Node.rootOnlysAll, Node.rootOnlys]
        using hcount (Node.headsOnlyAll_of_headFirst hfirst hhead)

/-- Inside a document everything ends, if what is included from it does. -/
theorem rewriteAll_included (hdocs : Tidy docs limit) {room : Nat}
    (hreplay : ∀ room', room' + 1 = room → EndsInside docs limit room' replay) :
    ∀ (ns : List Node) (s : Includer), s.Sound docs → s.inRoot = false → s.limit = limit →
      docs.length ≤ room + s.included.length →
        ∃ s' ms, (cutter (.ofList docs)).rewriteAll replay ns s = some (s', ms) ∧ Alike s s' ∧
          (Node.HeadsOnlyAll ns → Node.rootOnlysAll ms = 0)
  | [], s, _, _, _, _ => ⟨s, [], rfl, .refl s, fun _ => rfl⟩
  | n :: ns, s, hs, hin, hlimit, hroom => by
    obtain ⟨s', ms, hms, halike, hcount⟩ :=
      rewriteNode_included hdocs hreplay n s hs hin hlimit hroom
    obtain ⟨s'', ks, hks, halike', hcount'⟩ := rewriteAll_included hdocs hreplay ns s'
      (halike.sound hs) (halike.inRoot.trans hin) (halike.limit.trans hlimit)
      (by rwa [halike.included])
    refine ⟨s'', ms ++ ks, ?_, halike.trans halike', fun hns => ?_⟩
    · rw [Cutter.rewriteAll]
      simp only [hms, Option.bind_some, hks, Option.map_some]
    · rw [Node.rootOnlysAll_append, hcount hns.1, hcount' hns.2]

end

end

/-- Inside a document everything ends, within as many levels as there are further documents, and
    where `no-include` stands for heads only none comes out. -/
theorem rewrite_included (hdocs : Tidy docs limit) (levels : Nat) :
    EndsInside docs limit levels ((cutter (.ofList docs)).rewrite levels) := by
  induction levels with
  | zero => exact rewriteAll_included hdocs (fun _ h => absurd h (by simp))
  | succ levels ih =>
    refine rewriteAll_included hdocs fun room' h => ?_
    obtain rfl := Nat.succ.inj h
    exact ih

/-! ### In the root -/

section

variable {replay : List Node → Includer → Option (Includer × List Node)}

/-- What is shown of a replay in the root: it ends, and it does not make more atoms `no-include`. -/
def EndsInRoot (docs : List (String × String)) (limit levels : Nat)
    (replay : List Node → Includer → Option (Includer × List Node)) : Prop :=
  ∀ ns s, s.Sound docs → s.inRoot = true → s.limit = limit →
    docs.length + Node.rootOnlysAll ns ≤ levels →
      ∃ s' ms, replay ns s = some (s', ms) ∧ Alike s s' ∧
        Node.rootOnlysAll ms ≤ Node.rootOnlysAll ns

/-- What takes the place of a group in the root has no more atoms `no-include` than the group. -/
theorem replace_root (hdocs : Tidy docs limit) {levels : Nat}
    (hinside : ∀ room, room + 1 = levels → EndsInside docs limit room replay)
    (hroot : ∀ room, room + 1 = levels → EndsInRoot docs limit room replay) {s : Includer}
    (hs : s.Sound docs) (hin : s.inRoot = true) (hlimit : s.limit = limit) (g : Node)
    (hlevels : docs.length + g.rootOnlys ≤ levels) :
    ∃ s' ms, (cutter (.ofList docs)).replace replay g s = some (s', ms) ∧ Alike s s' ∧
      Node.rootOnlysAll ms ≤ g.rootOnlys := by
  obtain ⟨_, _, -, hp⟩ | ⟨form, hform, hhead, -, hp⟩ | ⟨form, id, text, m, -, -, hactive,
    hfetch, hp⟩ := paste_cases (.ofList docs) s (Builder.holding g)
  · exact ⟨_, [], Cutter.replace_of_none hp, ⟨rfl, rfl⟩, Nat.zero_le _⟩
  · -- the head of the form is one atom less, which pays for the level
    obtain rfl : g = form := by simpa using hform
    have htail := Node.rootOnlysAll_tail_lt hhead
    obtain ⟨room, rfl⟩ : ∃ room, levels = room + 1 := ⟨levels - 1, by omega⟩
    obtain ⟨s', ms, hms, halike, hcount⟩ := hroot room rfl (Node.plainAll g.tail)
      { s with stack := none :: s.stack } ⟨hs.nodup, hs.known⟩ hin hlimit
      (by rw [Node.rootOnlysAll_plainAll]; omega)
    rw [Node.rootOnlysAll_plainAll] at hcount
    refine ⟨_, ms, ?_, halike.pasted rfl rfl, by omega⟩
    rw [Cutter.replace_of_some hp, Builder.build_eventsAll, hms]
    rfl
  · obtain ⟨s', ms, hms, halike, hcount⟩ := replay_including form m
      hdocs hinside hs hlimit (by omega) hactive hfetch
    exact ⟨_, ms, by rw [Cutter.replace_of_some hp, hms]; rfl, halike, by omega⟩

mutual

/-- A node of the root document comes to an end, and leaves no more `no-include` than it has. -/
theorem rewriteNode_root (hdocs : Tidy docs limit) {levels : Nat}
    (hinside : ∀ room, room + 1 = levels → EndsInside docs limit room replay)
    (hroot : ∀ room, room + 1 = levels → EndsInRoot docs limit room replay) :
    ∀ (n : Node) (s : Includer), s.Sound docs → s.inRoot = true → s.limit = limit →
      docs.length + n.rootOnlys ≤ levels →
        ∃ s' ms, (cutter (.ofList docs)).rewriteNode replay n s = some (s', ms) ∧ Alike s s' ∧
          Node.rootOnlysAll ms ≤ n.rootOnlys
  | .atom _, s, _, _, _, _ => ⟨s, _, rfl, .refl s, Nat.le_refl _⟩
  | .comment _, s, _, _, _, _ => ⟨s, _, rfl, .refl s, Nat.le_refl _⟩
  | .group d cs l stop, s, hs, hin, hlimit, hlevels => by
    obtain ⟨s', ms, hms, halike, hcount⟩ :=
      rewriteAll_root hdocs hinside hroot cs s hs hin hlimit hlevels
    rw [Cutter.rewriteNode, ask_fst]
    simp only [hms, Option.bind_some]
    split
    · -- a form: its contents have no more words than the group had, and they go through one level
      -- further down
      obtain ⟨s'', ks, hks, halike', hcount'⟩ := replace_root hdocs hinside hroot (halike.sound hs)
        (halike.inRoot.trans hin) (halike.limit.trans hlimit) (.group d ms l stop)
        (Nat.le_trans (Nat.add_le_add_left hcount _) hlevels)
      exact ⟨s'', ks, hks, halike.trans halike', Nat.le_trans hcount' hcount⟩
    · exact ⟨s', _, rfl, halike, hcount⟩

/-- In the root everything ends, if what takes the place of the forms does. -/
theorem rewriteAll_root (hdocs : Tidy docs limit) {levels : Nat}
    (hinside : ∀ room, room + 1 = levels → EndsInside docs limit room replay)
    (hroot : ∀ room, room + 1 = levels → EndsInRoot docs limit room replay) :
    ∀ (ns : List Node) (s : Includer), s.Sound docs → s.inRoot = true → s.limit = limit →
      docs.length + Node.rootOnlysAll ns ≤ levels →
        ∃ s' ms, (cutter (.ofList docs)).rewriteAll replay ns s = some (s', ms) ∧ Alike s s' ∧
          Node.rootOnlysAll ms ≤ Node.rootOnlysAll ns
  | [], s, _, _, _, _ => ⟨s, [], rfl, .refl s, Nat.le_refl _⟩
  | n :: ns, s, hs, hin, hlimit, hlevels => by
    rw [Node.rootOnlysAll] at hlevels ⊢
    -- the levels are enough for all of the nodes, so they are for the first and for the others
    obtain ⟨s', ms, hms, halike, hcount⟩ :=
      rewriteNode_root hdocs hinside hroot n s hs hin hlimit (by omega)
    obtain ⟨s'', ks, hks, halike', hcount'⟩ := rewriteAll_root hdocs hinside hroot ns s'
      (halike.sound hs) (halike.inRoot.trans hin) (halike.limit.trans hlimit) (by omega)
    refine ⟨s'', ms ++ ks, ?_, halike.trans halike', ?_⟩
    · rw [Cutter.rewriteAll]
      simp only [hms, Option.bind_some, hks, Option.map_some]
    · rw [Node.rootOnlysAll_append]
      exact Nat.add_le_add hcount hcount'

end

end

/-- In the root everything ends, within as many levels as there are documents and atoms
    `no-include`, and there are no more of these atoms than before. -/
theorem rewrite_root (hdocs : Tidy docs limit) (levels : Nat) :
    EndsInRoot docs limit levels ((cutter (.ofList docs)).rewrite levels) := by
  induction levels with
  | zero =>
    exact rewriteAll_root hdocs (fun _ h => absurd h (by simp)) (fun _ h => absurd h (by simp))
  | succ levels ih =>
    refine rewriteAll_root hdocs (fun room h => ?_) (fun room h => ?_)
    · obtain rfl := Nat.succ.inj h
      exact rewrite_included hdocs room
    · obtain rfl := Nat.succ.inj h
      exact ih

/-- With tidy documents, replacing the forms of a root document ends. -/
theorem exists_process (hdocs : Tidy docs limit) {s : Includer} (hs : s.stack = [])
    (hlimit : s.limit = limit) (ns : List Node) :
    ∃ levels, (process (.ofList docs) levels s ns).isSome := by
  have hin : s.inRoot = true := by simp [inRoot, included, hs]
  obtain ⟨s', ms, hms, -, -⟩ := rewrite_root hdocs (docs.length + Node.rootOnlysAll ns)
    (Node.plainAll ns) s (sound_of_empty hs) hin hlimit
    (Nat.le_of_eq (by rw [Node.rootOnlysAll_plainAll]))
  refine ⟨docs.length + Node.rootOnlysAll ns, ?_⟩
  rw [process, ← Node.eventsAll_plainAll, Cutter.run_of_replays (cutter_onNodes _) _ s
    (Node.plainAll_plainAll ns) (Event.replays_eventsAll _), hms]
  rfl

end Includer

end Formwork
