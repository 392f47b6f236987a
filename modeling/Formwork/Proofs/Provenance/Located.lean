import Formwork.Proofs.Pipeline.Stages

namespace Formwork

/-!
# Where nodes stand

A `Standing` says what may stand where: an atom with its value, a group, anything else. It is said
of everything in a node, and carried through building and cutting out, if the cutter carries it
through its answers. A property of locations is such a standing too, said of all nodes alike.

* `Node.Stands` — everything in a node stands where it may.
* `Node.located_iff`, `Node.stands_uniform` — a property of locations holds everywhere in a node.
* `Builder.Stands.nodes` — what is built from events stands where the events do.
* `Cutter.Upholds.rewrite` — what a cutter that carries the standing leaves of nodes has it too.
-/

/-- What may stand where. Atoms and groups may only stand where something may. -/
structure Standing where
  /-- Where an atom with a value may stand. -/
  atom : String → Location → Prop
  /-- Where a group may start. -/
  group : Location → Prop
  /-- Where something may stand, such as a comment, or the end of a group. -/
  place : Location → Prop
  /-- Where a report may point that is about no node. -/
  edge : Location → Prop
  place_of_atom : ∀ {v l}, atom v l → place l
  place_of_group : ∀ {l}, group l → place l

/-- The same property of all locations. -/
def Standing.uniform (P : Location → Prop) : Standing where
  atom _ := P
  group := P
  place := P
  edge := P
  place_of_atom := id
  place_of_group := id

variable {P : Location → Prop} {Q : Standing}

/-! ### Nodes and reports -/

namespace Node

mutual

/-- Whether everything in a node stands where it may. -/
def Stands (Q : Standing) : Node → Prop
  | atom a => Q.atom a.value a.location
  | comment c => Q.place c.location
  | group _ cs l s => Q.group l ∧ Q.place s ∧ StandsAll Q cs

/-- Whether everything in nodes stands where it may. -/
def StandsAll (Q : Standing) : List Node → Prop
  | [] => True
  | n :: ns => Stands Q n ∧ StandsAll Q ns

end

/-- Nodes stand when each of them does. -/
theorem standsAll_iff {ns : List Node} : StandsAll Q ns ↔ ∀ n ∈ ns, n.Stands Q := by
  induction ns with
  | nil => simp [StandsAll]
  | cons n ns ih => simp [StandsAll, ih]

/-- A group starts where groups may. -/
theorem Stands.group {n : Node} (h : n.Stands Q) (hn : n.isGroup = true) : Q.group n.location := by
  cases n with
  | atom a => cases hn
  | comment c => cases hn
  | group d cs l s => exact h.1

/-- What stands starts at a place that is allowed. -/
theorem Stands.location {n : Node} (h : n.Stands Q) : Q.place n.location := by
  cases n with
  | atom a => exact Q.place_of_atom h
  | comment c => exact h
  | group d cs l s => exact Q.place_of_group h.1

/-- What is directly inside stands where it may. -/
theorem Stands.children {n : Node} (h : n.Stands Q) : ∀ c ∈ n.children, c.Stands Q := by
  cases n with
  | atom a => simp [Node.children]
  | comment c => simp [Node.children]
  | group d cs l s => exact standsAll_iff.mp h.2.2

/-- So do the children that are not comments. -/
theorem Stands.exprs {n : Node} (h : n.Stands Q) : ∀ c ∈ n.exprs, c.Stands Q :=
  fun c hc => h.children c (List.mem_of_mem_filter hc)

/-- So do the children after the head. -/
theorem Stands.tail {n : Node} (h : n.Stands Q) : ∀ c ∈ n.tail, c.Stands Q :=
  fun c hc => h.exprs c (List.mem_of_mem_drop hc)

/-- Everything inside stands where it may. -/
theorem Stands.of_mem_preorder {n : Node} (h : n.Stands Q) : ∀ m ∈ n.preorder, m.Stands Q := by
  induction n using Node.induct with
  | atom a => simpa [preorder, walk] using h
  | comment c => simpa [preorder, walk] using h
  | group d cs l s ih =>
    rw [preorder_group, List.forall_mem_cons, List.forall_mem_flatMap]
    exact ⟨h, fun c hc => ih c hc (h.children c hc)⟩

/-- Lists in a row stand when each of them does. -/
theorem standsAll_append {ns ms : List Node} :
    StandsAll Q (ns ++ ms) ↔ StandsAll Q ns ∧ StandsAll Q ms := by
  simp only [standsAll_iff, List.forall_mem_append]

/-- Making nodes plain does not move them. -/
theorem stands_plain (n : Node) : n.plain.Stands Q ↔ n.Stands Q := by
  induction n using induct with
  | atom a => rfl
  | comment c => rfl
  | group d cs l s ih =>
    have hcs : StandsAll Q (plainAll cs) ↔ StandsAll Q cs := by
      rw [plainAll_eq_map, standsAll_iff, standsAll_iff, List.forall_mem_map]
      exact forall_congr' fun n => forall_congr' fun hn => ih n hn
    rw [plain, Stands, Stands, hcs]

/-- Whether nodes stand does not depend on the quotes of their atoms. -/
theorem standsAll_plainAll (ns : List Node) : StandsAll Q (plainAll ns) ↔ StandsAll Q ns := by
  rw [plainAll_eq_map, standsAll_iff, standsAll_iff, List.forall_mem_map]
  exact forall_congr' fun n => forall_congr' fun _ => stands_plain n

mutual

/-- Taking comments out of a node does not move what stays. -/
theorem Stands.uncommented : ∀ {n : Node}, n.Stands Q → StandsAll Q (uncommentedAll [n])
  | .atom a, h => by simpa [uncommentedAll, StandsAll] using h
  | .comment c, _ => by simp [uncommentedAll, StandsAll]
  | .group d cs l s, h => by
    rw [uncommentedAll, uncommentedAll]
    exact ⟨⟨h.1, h.2.1, StandsAll.uncommentedAll h.2.2⟩, trivial⟩

/-- Taking comments out of nodes does not move what stays. -/
theorem StandsAll.uncommentedAll : ∀ {ns : List Node}, StandsAll Q ns →
    StandsAll Q (uncommentedAll ns)
  | [], _ => by simp [Node.uncommentedAll, StandsAll]
  | n :: ns, h => by
    have hn := Stands.uncommented h.1
    have hns := StandsAll.uncommentedAll h.2
    cases n with
    | comment c => simpa [Node.uncommentedAll] using hns
    | atom a => simpa [Node.uncommentedAll, StandsAll] using And.intro h.1 hns
    | group d cs l s =>
      simp only [Node.uncommentedAll, StandsAll, and_true] at hn ⊢
      exact ⟨hn, hns⟩

end

/-- What stands with its comments stands without them. -/
theorem StandsAll.withComments {ns : List Node} (h : StandsAll Q ns) (keep : Bool) :
    StandsAll Q (withComments keep ns) := by
  cases keep with
  | true => exact h
  | false => exact h.uncommentedAll

end Node

namespace Report

/-- Whether a report points where it may, and its nodes stand where they may. -/
def Stands (Q : Standing) (r : Report) : Prop :=
  (∀ l ∈ r.locations, Q.edge l) ∧ Node.StandsAll Q r.nodes

/-- A report at the edge of a text stands. -/
theorem stands_atLocation {l : Location} (h : Q.edge l) (problem : Problem) :
    (atLocation problem l).Stands Q := by
  simp [atLocation, Stands, Node.StandsAll, h]

/-- A report at a node that stands stands. -/
theorem stands_atNode {n : Node} (h : n.Stands Q) (problem : Problem) :
    (atNode problem n).Stands Q := by
  simp [atNode, Stands, Node.StandsAll, h]

/-- Whether reports point where they may, and their nodes stand where they may. -/
def StandsAll (Q : Standing) (rs : List Report) : Prop := ∀ r ∈ rs, r.Stands Q

/-- Reports may be followed by others. -/
theorem StandsAll.append {rs ss : List Report} (hr : StandsAll Q rs) (hs : StandsAll Q ss) :
    StandsAll Q (rs ++ ss) :=
  fun r h => (List.mem_append.mp h).elim (hr r) (hs r)

/-- A single report. -/
theorem StandsAll.singleton {r : Report} (h : r.Stands Q) : StandsAll Q [r] :=
  fun _ hr => List.mem_singleton.mp hr ▸ h

/-- No reports at all stand. -/
theorem StandsAll.nil : StandsAll Q [] := by simp [StandsAll]

end Report

/-! ### Properties of locations -/

namespace Node

mutual

/-- Whether a property holds of all locations in a node. -/
def Located (P : Location → Prop) : Node → Prop
  | atom a => P a.location
  | comment c => P c.location
  | group _ cs l s => P l ∧ P s ∧ LocatedAll P cs

/-- Whether a property holds of all locations in nodes. -/
def LocatedAll (P : Location → Prop) : List Node → Prop
  | [] => True
  | n :: ns => Located P n ∧ LocatedAll P ns

end

/-- Nodes have a property at all locations when each of them has. -/
theorem locatedAll_iff {ns : List Node} : LocatedAll P ns ↔ ∀ n ∈ ns, n.Located P := by
  induction ns with
  | nil => simp [LocatedAll]
  | cons n ns ih => simp [LocatedAll, ih]

/-- The property holds of every node inside, where it starts and where it stops. -/
theorem located_iff (n : Node) :
    n.Located P ↔ ∀ m ∈ n.preorder, P m.location ∧ P m.stop := by
  induction n using induct with
  | atom a => simp [Located, preorder, walk, location, stop]
  | comment c => simp [Located, preorder, walk, location, stop]
  | group d cs l s ih =>
    rw [Located, locatedAll_iff, preorder_group, List.forall_mem_cons]
    simp only [List.forall_mem_flatMap, location, stop, and_assoc]
    exact and_congr_right fun _ => and_congr_right fun _ =>
      forall_congr' fun n => forall_congr' fun hn => ih n hn

/-- A property may be replaced by a weaker one. -/
theorem Located.mono {P' : Location → Prop} (hP : ∀ l, P l → P' l) {n : Node} (h : n.Located P) :
    n.Located P' :=
  n.located_iff.mpr fun m hm =>
    have hm := n.located_iff.mp h m hm
    ⟨hP _ hm.1, hP _ hm.2⟩

/-- So it may in a list of nodes. -/
theorem LocatedAll.mono {P' : Location → Prop} (hP : ∀ l, P l → P' l) {ns : List Node}
    (h : LocatedAll P ns) : LocatedAll P' ns := by
  rw [locatedAll_iff] at h ⊢
  exact fun n hn => (h n hn).mono hP

/-- Nodes stand by a property of locations when it holds of all locations in them. -/
theorem stands_uniform (n : Node) : n.Stands (.uniform P) ↔ n.Located P := by
  induction n using induct with
  | atom a => rfl
  | comment c => rfl
  | group d cs l s ih =>
    rw [Stands, Located, standsAll_iff, locatedAll_iff]
    exact and_congr_right fun _ => and_congr_right fun _ =>
      forall_congr' fun n => forall_congr' fun hn => ih n hn

/-- For nodes, standing uniformly is having the property at all locations. -/
theorem standsAll_uniform (ns : List Node) : StandsAll (.uniform P) ns ↔ LocatedAll P ns := by
  rw [standsAll_iff, locatedAll_iff]
  exact forall_congr' fun n => forall_congr' fun _ => n.stands_uniform

/-- Quotes do not matter to locations. -/
theorem locatedAll_plainAll (ns : List Node) : LocatedAll P (plainAll ns) ↔ LocatedAll P ns := by
  rw [← standsAll_uniform, ← standsAll_uniform, standsAll_plainAll]

end Node

namespace Report

/-- Whether a property holds of all locations and nodes of a report. -/
def Located (P : Location → Prop) (r : Report) : Prop :=
  (∀ l ∈ r.locations, P l) ∧ Node.LocatedAll P r.nodes

/-- Whether a property holds of all locations and nodes of reports. -/
def LocatedAll (P : Location → Prop) (rs : List Report) : Prop := ∀ r ∈ rs, r.Located P

/-- Reports may be followed by others. -/
theorem LocatedAll.append {rs ss : List Report} (hr : LocatedAll P rs) (hs : LocatedAll P ss) :
    LocatedAll P (rs ++ ss) :=
  fun r h => (List.mem_append.mp h).elim (hr r) (hs r)

/-- A property of the locations of reports may be replaced by a weaker one. -/
theorem LocatedAll.mono {P' : Location → Prop} (hP : ∀ l, P l → P' l) {rs : List Report}
    (h : LocatedAll P rs) : LocatedAll P' rs :=
  fun r hr => ⟨fun l hl => hP l ((h r hr).1 l hl), (h r hr).2.mono hP⟩

/-- For reports, standing uniformly is having the property at all locations. -/
theorem standsAll_uniform (rs : List Report) : StandsAll (.uniform P) rs ↔ LocatedAll P rs :=
  forall_congr' fun r => forall_congr' fun _ =>
    and_congr_right fun _ => Node.standsAll_uniform r.nodes

end Report

/-! ### Building -/

/-- Whether what an event writes may stand at a location. -/
def Event.Stands (Q : Standing) (l : Location) : Event → Prop
  | .atom value => Q.atom value l
  | .opening _ => Q.group l
  | .comment _ | .closing _ => Q.place l
  | .locate _ => False

/-- Whatever an event is, its location is allowed as a place. -/
theorem Event.Stands.place {e : Event} {l : Location} (h : e.Stands Q l) : Q.place l := by
  cases e with
  | atom value => exact Q.place_of_atom h
  | opening d => exact Q.place_of_group h
  | comment text => exact h
  | closing d => exact h
  | locate l => exact h.elim

namespace Builder

/-- Whether everything in a builder stands where it may, and something may stand where the builder
    is when a group is open. -/
structure Stands (Q : Standing) (b : Builder) : Prop where
  top : Node.StandsAll Q b.top
  groups : ∀ g ∈ b.groups, Q.group g.location ∧ Node.StandsAll Q g.children
  here : b.groups ≠ [] → Q.place b.here

namespace Stands

variable {b : Builder}

/-- A builder that has built nothing stands. -/
theorem empty : Builder.empty.Stands Q where
  top := trivial
  groups := by simp [Builder.empty]
  here h := absurd rfl h

/-- A node that stands may be added. -/
theorem push (h : b.Stands Q) {n : Node} (hn : n.Stands Q) : (b.push n).Stands Q := by
  unfold Builder.push
  split
  case h_1 => exact ⟨⟨hn, h.top⟩, h.groups, h.here⟩
  case h_2 g gs hb =>
    have hgroups := h.groups
    rw [hb, List.forall_mem_cons] at hgroups
    obtain ⟨hg, hgs⟩ := hgroups
    have hhere : Q.place b.here := h.here (by simp [hb])
    exact ⟨h.top, List.forall_mem_cons.mpr ⟨⟨hg.1, hn, hg.2⟩, hgs⟩, fun _ => hhere⟩

/-- When the innermost group closes, it stands with what is in it, as the builder has kept where it
    was opened. -/
theorem close (h : b.Stands Q) : b.close.Stands Q := by
  unfold Builder.close
  split
  case h_1 => exact h
  case h_2 g gs hb =>
    have hgroups := h.groups
    rw [hb, List.forall_mem_cons] at hgroups
    obtain ⟨⟨hl, hcs⟩, hgs⟩ := hgroups
    -- the group ends here, which is a place as a group is open
    have hhere : Q.place b.here := h.here (by simp [hb])
    have hrest : ({ b with groups := gs } : Builder).Stands Q := ⟨h.top, hgs, fun _ => hhere⟩
    refine hrest.push ⟨hl, hhere, ?_⟩
    rw [Node.standsAll_iff] at hcs ⊢
    exact fun n hn => hcs n (List.mem_reverse.mp hn)

/-- An event with its location before it. -/
theorem feed_at (h : b.Stands Q) {l : Location} {e : Event} (he : e.Stands Q l) :
    (Sink.feed b [.locate l, e]).Stands Q := by
  -- the place of the event is where the builder is when it comes
  have hmoved : (b.receive (.locate l)).Stands Q := ⟨h.top, h.groups, fun _ => he.place⟩
  show ((b.receive (.locate l)).receive e).Stands Q
  cases e with
  | locate l' => exact he.elim
  | opening d =>
    exact ⟨hmoved.top, List.forall_mem_cons.mpr ⟨⟨he, trivial⟩, hmoved.groups⟩, fun _ => he.place⟩
  | atom v => exact hmoved.push he
  | comment t => exact hmoved.push he
  | closing d => exact hmoved.close

/-- The nodes of a builder stand where its events stood; a group left open ends at the last one. -/
theorem nodes (h : b.Stands Q) : Node.StandsAll Q b.nodes := by
  have hclose : ∀ (gs : List OpenGroup) (b : Builder), b.Stands Q →
      (gs.foldl (fun b _ => b.close) b).Stands Q := by
    intro gs
    induction gs with
    | nil => exact fun _ hb => hb
    | cons g gs ih => exact fun b hb => ih b.close hb.close
  have htop := (hclose b.groups b h).top
  rw [Node.standsAll_iff] at htop ⊢
  exact fun n hn => htop n (List.mem_reverse.mp hn)

end Stands

end Builder

/-! ### Cutting out -/

namespace Cutter

variable {σ : Type} {cutter : Cutter σ Builder} {Inv : σ → Prop}

/-- Whether a cutter carries a standing: when a group that is handed over stands where it may, so
    does the answer, as long as the state is fit for that. -/
structure Upholds (cutter : Cutter σ Builder) (Q : Standing) (Inv : σ → Prop) : Prop where
  cut : ∀ s head, Inv s → Inv (cutter.cut s head).1
  paste : ∀ s g, Inv s → g.isGroup = true → g.Stands Q →
    Inv (cutter.paste s (Builder.holding g)).1 ∧
      ∀ es, (cutter.paste s (Builder.holding g)).2 = some es → Node.StandsAll Q (Builder.build es)
  pasted : ∀ s, Inv s → Inv (cutter.pasted s)

/-- Whether rewriting by `replay` carries a standing. -/
def UpholdsOn (Q : Standing) (Inv : σ → Prop)
    (replay : List Node → σ → Option (σ × List Node)) : Prop :=
  ∀ ns s r, Inv s → Node.StandsAll Q ns → replay ns s = some r → Inv r.1 ∧ Node.StandsAll Q r.2

variable {replay : List Node → σ → Option (σ × List Node)}

/-- What takes the place of a group stands where it may. -/
theorem Upholds.replace (h : cutter.Upholds Q Inv) (hr : UpholdsOn Q Inv replay) {g : Node} {s : σ}
    {r : σ × List Node} (hs : Inv s) (hgroup : g.isGroup = true) (hg : g.Stands Q)
    (hrun : cutter.replace replay g s = some r) : Inv r.1 ∧ Node.StandsAll Q r.2 := by
  obtain ⟨hinv, hanswer⟩ := h.paste s g hs hgroup hg
  cases hp : cutter.paste s (Builder.holding g) with
  | mk s' answer =>
    rw [hp] at hinv hanswer
    -- the form is left out, or its answer is rewritten on the level below
    cases answer with
    | none =>
      rw [replace_of_none hp] at hrun
      cases hrun
      exact ⟨hinv, trivial⟩
    | some answer =>
      rw [replace_of_some hp] at hrun
      obtain ⟨q, hq, rfl⟩ := Option.map_eq_some_iff.mp hrun
      obtain ⟨hq1, hq2⟩ := hr _ _ _ hinv (hanswer answer rfl) hq
      exact ⟨h.pasted _ hq1, hq2⟩

/-- Asking about a head keeps the property of the state. -/
theorem Upholds.ask (h : cutter.Upholds Q Inv) {s : σ} (hs : Inv s) (head : Option String) :
    Inv (cutter.ask s head).1 := by
  cases head with
  | none => exact hs
  | some name => exact h.cut s name hs

mutual

/-- Rewriting a node carries the standing. -/
theorem Upholds.rewriteNode (h : cutter.Upholds Q Inv) (hr : UpholdsOn Q Inv replay) :
    ∀ (n : Node) (s : σ) (r : σ × List Node), Inv s → n.Stands Q →
      cutter.rewriteNode replay n s = some r → Inv r.1 ∧ Node.StandsAll Q r.2
  | .atom a, s, r, hs, hn, hrun => by
    cases hrun
    exact ⟨hs, hn, trivial⟩
  | .comment c, s, r, hs, hn, hrun => by
    cases hrun
    exact ⟨hs, hn, trivial⟩
  | .group d cs l stop, s, r, hs, hn, hrun => by
    obtain ⟨q, hq, hrun⟩ := Option.bind_eq_some_iff.mp hrun
    obtain ⟨hinv, hcs⟩ := h.rewriteAll hr cs _ q (h.ask hs _) hn.2.2 hq
    have hgroup : (Node.group d q.2 l stop).Stands Q := ⟨hn.1, hn.2.1, hcs⟩
    -- the contents stand as they came out, and so does the group around them
    split at hrun
    · exact h.replace hr hinv rfl hgroup hrun
    · cases hrun
      exact ⟨hinv, hgroup, trivial⟩

/-- Rewriting nodes carries the standing. -/
theorem Upholds.rewriteAll (h : cutter.Upholds Q Inv) (hr : UpholdsOn Q Inv replay) :
    ∀ (ns : List Node) (s : σ) (r : σ × List Node), Inv s → Node.StandsAll Q ns →
      cutter.rewriteAll replay ns s = some r → Inv r.1 ∧ Node.StandsAll Q r.2
  | [], s, r, hs, hns, hrun => by
    cases hrun
    exact ⟨hs, trivial⟩
  | n :: ns, s, r, hs, hns, hrun => by
    obtain ⟨q, hq, hrun⟩ := Option.bind_eq_some_iff.mp hrun
    obtain ⟨p, hp, rfl⟩ := Option.map_eq_some_iff.mp hrun
    obtain ⟨hq1, hq2⟩ := h.rewriteNode hr n s q hs hns.1 hq
    obtain ⟨hp1, hp2⟩ := h.rewriteAll hr ns q.1 p hq1 hns.2 hp
    exact ⟨hp1, Node.standsAll_append.mpr ⟨hq2, hp2⟩⟩

end

/-- **What a cutter leaves stands where it may**, if the cutter carries the standing. -/
theorem Upholds.rewrite (h : cutter.Upholds Q Inv) (levels : Nat) :
    UpholdsOn Q Inv (cutter.rewrite levels) := by
  induction levels with
  | zero => exact h.rewriteAll (fun _ _ _ _ _ hrun => by cases hrun)
  | succ levels ih => exact h.rewriteAll ih

/-- Whether a cutter carries a property of locations. -/
def Carries (cutter : Cutter σ Builder) (P : Location → Prop) (Inv : σ → Prop) : Prop :=
  cutter.Upholds (.uniform P) Inv

/-- What a cutter that carries a property of locations leaves of nodes has it. -/
theorem Carries.rewrite (h : cutter.Carries P Inv) (levels : Nat) (ns : List Node) (s : σ)
    (r : σ × List Node) (hs : Inv s) (hns : Node.LocatedAll P ns)
    (hrun : cutter.rewrite levels ns s = some r) : Inv r.1 ∧ Node.LocatedAll P r.2 := by
  rw [← Node.standsAll_uniform] at hns ⊢
  exact Upholds.rewrite h levels ns s r hs hns hrun

end Cutter

end Formwork
