import Formwork.Proofs.Likeness.Nodes
import Formwork.Scan

namespace Formwork

/-!
# Where a text stands

A scan reads the same from a text wherever the text is included: the nodes differ in their
locations only, and the problems reported are the same.

* `Likeness.shape` — the likeness of nodes that differ in their locations only.
* `Scanner.Twin.step` — one character leads two scans of a text that have read alike on alike.
* `Builder.like_build` — events that differ in their locations only build nodes that do.
* `like_parse` — the nodes and the reports of two scans of one text.
-/

/-- The likeness of nodes that differ in their locations only. -/
def Likeness.shape : Likeness where
  place _ _ := True
  bracket := Eq
  problem := Eq
  comments := true

open Likeness (shape)

/-- Nodes that differ in their locations only are the same as they are. -/
theorem Likeness.shape_isSeenBy : shape.IsSeenBy id id where
  comments := rfl
  place _ _ := trivial
  bracket := Iff.rfl
  atom _ := rfl
  comment _ := rfl
  group _ _ _ _ := by rw [List.map_id, id, id]

/-- Whether two events are the same, or both set a location. -/
inductive Event.Twin : Event → Event → Prop where
  | locate (l l' : Location) : Twin (.locate l) (.locate l')
  | same (e : Event) : Twin e e

/-- Reports of the same problems, with one location each, are alike. -/
theorem Report.like_atLocation (p : Problem) (l l' : Location) :
    (atLocation p l).Like shape (atLocation p l') :=
  ⟨rfl, .cons trivial .nil⟩

/-- Reports that are alike are of the same problems. -/
theorem Report.LikeAll.problems {rs qs : List Report} (h : LikeAll shape rs qs) :
    qs.map Report.problem = rs.map Report.problem := by
  induction h with
  | nil => rfl
  | cons hr _ ih => rw [List.map_cons, List.map_cons, ih, hr.problem]

/-! ### Reading characters -/

namespace Scanner

/-- Whether two scans have read alike. -/
structure Twin (s t : Scanner) : Prop where
  mark : t.mark = s.mark
  mode : t.mode = s.mode
  groups : t.groups = s.groups
  events : List.Forall₂ Event.Twin s.events t.events
  reports : Report.LikeAll shape s.reports t.reports

variable {src src' : Source} {s t : Scanner}

namespace Twin

/-- Both scans write the same event, each with its own location before it. -/
theorem send (h : s.Twin t) (l l' : Location) (e : Event) : (s.send l e).Twin (t.send l' e) :=
  { h with events := .cons (.same e) (.cons (.locate l l') h.events) }

/-- Both scans report the same problem, each with its own location. -/
theorem report (h : s.Twin t) (p : Problem) (l l' : Location) :
    (s.report p l).Twin (t.report p l') :=
  { h with reports := .cons (Report.like_atLocation p l l') h.reports }

/-- Going on in the same mode. -/
theorem enter (h : s.Twin t) {mode mode' : ScanMode} (hmode : mode' = mode) :
    Twin { s with mode } { t with mode := mode' } :=
  { h with mode := hmode }

/-- Going on with the same groups. -/
theorem regroup (h : s.Twin t) (groups : List Delim) :
    Twin { s with groups } { t with groups } :=
  { h with groups := rfl }

/-- A group is opened by both scans or by neither: the number of open groups is the same, and so is
    the limit. -/
theorem openGroup (hlimit : src'.limit = src.limit) (h : s.Twin t) (d : Delim) :
    (s.openGroup src d).Twin (t.openGroup src' d) := by
  unfold Scanner.openGroup
  simp only [hlimit, h.groups]
  split
  · exact (h.report _ _ _).enter rfl
  · exact (h.regroup _).send _ _ _

/-- A closing bracket matches in both scans or in neither, as both are in the same groups. -/
theorem closeGroup (h : s.Twin t) (d : Delim) : (s.closeGroup src d).Twin (t.closeGroup src' d) := by
  unfold Scanner.closeGroup
  simp only [h.groups]
  split
  · exact (h.report _ _ _).enter rfl
  · split
    · exact (h.regroup _).send _ _ _
    · exact ((h.regroup _).report _ _ _).enter rfl

/-- A character between items leads both scans on alike. What is started there starts at the mark,
    which is the same. -/
theorem readBetween (hlimit : src'.limit = src.limit) (h : s.Twin t) (c : Char) :
    (s.readBetween src c).Twin (t.readBetween src' c) := by
  unfold Scanner.readBetween
  split
  · exact h
  · split
    · exact h.openGroup hlimit _
    · exact h.closeGroup _
    · split
      · exact h.enter (by rw [h.mark])
      · split <;> exact h.enter (by rw [h.mark])

/-- A character leads both scans on alike, whatever they are in the middle of. -/
theorem read (hlimit : src'.limit = src.limit) (h : s.Twin t) (c : Char) :
    (s.read src c).Twin (t.read src' c) := by
  unfold Scanner.read
  -- one case for each mode; in an unquoted atom a colon ends it, and what separates atoms ends it
  -- and is read again between items
  rw [h.mode]
  split
  · exact h.readBetween hlimit c
  · exact h
  · split
    · exact (h.send _ _ _).enter rfl
    · exact h.enter rfl
  · exact h.enter rfl
  · split
    · exact (h.send _ _ _).enter rfl
    · split <;> exact h.enter rfl
  · split
    · exact (h.send _ _ _).enter rfl
    · split
      · exact ((h.send _ _ _).enter rfl).readBetween hlimit c
      · exact h.enter rfl

/-- **One character** leads two scans that have read alike on alike. -/
theorem step (hlimit : src'.limit = src.limit) (h : s.Twin t) (c : Char) :
    (s.step src c).Twin (t.step src' c) :=
  { h.read hlimit c with mark := congrArg (Mark.advance · c) h.mark }

/-- So do some characters, one after another. -/
theorem foldl_step (hlimit : src'.limit = src.limit) (h : s.Twin t) (cs : List Char) :
    (cs.foldl (Scanner.step src) s).Twin (cs.foldl (Scanner.step src') t) := by
  induction cs generalizing s t with
  | nil => exact h
  | cons c cs ih => exact ih (h.step hlimit c)

/-- What is left unfinished at the end of the text is finished alike. -/
theorem flush (h : s.Twin t) : (s.flush src).Twin (t.flush src') := by
  unfold Scanner.flush
  rw [h.mode]
  split
  · exact h
  · exact h
  · exact h.send _ _ _
  · exact h.send _ _ _
  · exact (h.report _ _ _).send _ _ _

/-- Both scans end alike: groups that are still open are reported by both. -/
theorem finish (h : s.Twin t) : (s.finish src).Twin (t.finish src') := by
  unfold Scanner.finish
  simp only [h.mode, h.groups]
  split
  · exact h.flush
  · exact h.flush.report _ _ _

end Twin

end Scanner

/-! ### Building nodes -/

/-- Whether two open groups have the same bracket and children that are alike so far. -/
structure OpenGroup.Twin (g h : OpenGroup) : Prop where
  delim : h.delim = g.delim
  children : Like shape g.children.reverse h.children.reverse

namespace Builder

/-- Whether two builders have built alike. -/
structure Twin (b c : Builder) : Prop where
  top : Like shape b.top.reverse c.top.reverse
  groups : List.Forall₂ OpenGroup.Twin b.groups c.groups

namespace Twin

variable {b c : Builder}

/-- A node goes to the innermost open groups, or to the top, and the other nodes there stay
    alike. -/
theorem push (h : b.Twin c) {n m : Node} (hn : Like shape [n] [m]) :
    (b.push n).Twin (c.push m) := by
  have hadd : ∀ {ns ms : List Node}, Like shape ns.reverse ms.reverse →
      Like shape (n :: ns).reverse (m :: ms).reverse := by
    intro ns ms hns
    rw [List.reverse_cons, List.reverse_cons]
    exact hns.append hn
  have hgroups := h.groups
  unfold Builder.push
  -- the groups are taken apart in both builders at once
  generalize b.groups = gs at hgroups ⊢
  generalize c.groups = hs at hgroups ⊢
  cases hgroups with
  | nil => exact ⟨hadd h.top, .nil⟩
  | cons hg hgs => exact ⟨h.top, .cons ⟨hg.delim, hadd hg.children⟩ hgs⟩

/-- Closing the innermost groups makes nodes of them that are alike. Where no group is open, neither
    builder closes one. -/
theorem close (h : b.Twin c) : b.close.Twin c.close := by
  have hgroups := h.groups
  unfold Builder.close
  generalize b.groups = gs at hgroups ⊢
  generalize c.groups = hs at hgroups ⊢
  cases hgroups with
  | nil => exact h
  | @cons g g' gs hs hg hgs =>
    have hrest : Twin { b with groups := gs } { c with groups := hs } := ⟨h.top, hgs⟩
    exact hrest.push (.group hg.delim.symm hg.children trivial trivial .nil)

/-- One event, apart from locations, leads builders that have built alike on alike. -/
theorem receive (h : b.Twin c) {e f : Event} (hef : e.Twin f) :
    (b.receive e).Twin (c.receive f) := by
  cases hef with
  | locate => exact ⟨h.top, h.groups⟩
  | same =>
    cases e with
    | locate => exact ⟨h.top, h.groups⟩
    | opening => exact ⟨h.top, .cons ⟨rfl, .nil⟩ h.groups⟩
    | atom => exact h.push (.atom rfl rfl trivial .nil)
    | comment => exact h.push (.comment rfl rfl trivial .nil)
    | closing => exact h.close

/-- So do events, one after another. -/
theorem feed (h : b.Twin c) {es fs : List Event} (hes : List.Forall₂ Event.Twin es fs) :
    (Sink.feed b es).Twin (Sink.feed c fs) := by
  induction hes generalizing b c with
  | nil => exact h
  | cons he _ ih =>
    rw [Sink.feed_cons, Sink.feed_cons]
    exact ih (h.receive he)

/-- The groups that are left open at the end are closed alike: there are as many of them. -/
theorem closeAll (h : b.Twin c) : b.closeAll.Twin c.closeAll := by
  have hgroups := h.groups
  unfold Builder.closeAll
  generalize b.groups = gs at hgroups ⊢
  generalize c.groups = hs at hgroups ⊢
  induction hgroups generalizing b c with
  | nil => exact h
  | cons _ _ ih => exact ih h.close

end Twin

/-- **Events that differ in their locations only** build nodes that do. -/
theorem like_build {es fs : List Event} (h : List.Forall₂ Event.Twin es fs) :
    Like shape (build es) (build fs) :=
  (Twin.feed ⟨.nil, .nil⟩ h).closeAll.top

end Builder

/-! ### Plain nodes -/

namespace Builder

/-- Whether a builder has built plain nodes so far. -/
structure IsPlain (b : Builder) : Prop where
  top : Node.plainAll b.top.reverse = b.top.reverse
  groups : ∀ g ∈ b.groups, Node.plainAll g.children.reverse = g.children.reverse

namespace IsPlain

variable {b : Builder}

/-- A plain node added to plain nodes leaves plain nodes. -/
theorem push (h : b.IsPlain) {n : Node} (hn : n.plain = n) : (b.push n).IsPlain := by
  have hadd : ∀ {ns : List Node}, Node.plainAll ns.reverse = ns.reverse →
      Node.plainAll (n :: ns).reverse = (n :: ns).reverse := by
    intro ns hns
    rw [List.reverse_cons, Node.plainAll_append, hns, Node.plainAll, hn, Node.plainAll]
  have hgroups := h.groups
  unfold Builder.push
  split
  · exact ⟨hadd h.top, h.groups⟩
  case h_2 g gs heq =>
    rw [heq, List.forall_mem_cons] at hgroups
    exact ⟨h.top, List.forall_mem_cons.mpr ⟨hadd hgroups.1, hgroups.2⟩⟩

/-- A group of plain nodes is plain. -/
theorem close (h : b.IsPlain) : b.close.IsPlain := by
  have hgroups := h.groups
  unfold Builder.close
  split
  · exact h
  case h_2 g gs heq =>
    rw [heq, List.forall_mem_cons] at hgroups
    have hrest : IsPlain { b with groups := gs } := ⟨h.top, hgroups.2⟩
    refine hrest.push ?_
    rw [OpenGroup.close, Node.plain, hgroups.1]

/-- The atoms that a builder makes of events are plain. -/
theorem receive (h : b.IsPlain) (e : Event) : (b.receive e).IsPlain := by
  cases e with
  | locate => exact ⟨h.top, h.groups⟩
  | opening => exact ⟨h.top, List.forall_mem_cons.mpr ⟨rfl, h.groups⟩⟩
  | atom => exact h.push rfl
  | comment => exact h.push rfl
  | closing => exact h.close

end IsPlain

/-- What is built is plain. -/
theorem plainAll_build (es : List Event) : Node.plainAll (build es) = build es := by
  have hfeed : ∀ (es : List Event) (b : Builder), b.IsPlain → (Sink.feed b es).IsPlain := by
    intro es
    induction es with
    | nil => exact fun b h => h
    | cons e es ih => exact fun b h => ih _ (h.receive e)
  -- the groups that are still open are closed one by one
  have hclose : ∀ (gs : List OpenGroup) (b : Builder), b.IsPlain →
      (gs.foldl (fun b _ => b.close) b).IsPlain := by
    intro gs
    induction gs with
    | nil => exact fun b h => h
    | cons g gs ih => exact fun b h => ih _ h.close
  exact (hclose _ _ (hfeed es empty ⟨rfl, by simp [empty]⟩)).top

end Builder

/-- **A text reads the same wherever it stands**: the nodes of two scans differ in their locations
    only, and the problems reported are the same. -/
theorem like_parse {src src' : Source} (hlimit : src'.limit = src.limit) (text : String) :
    Like shape (parse src text).1 (parse src' text).1 ∧
      Report.LikeAll shape (parse src text).2 (parse src' text).2 := by
  have hstart : Scanner.Twin {} {} := ⟨rfl, rfl, rfl, .nil, .nil⟩
  have hdone : Scanner.Twin ((text.toList.foldl (Scanner.step src) {}).finish src)
      ((text.toList.foldl (Scanner.step src') {}).finish src') :=
    (hstart.foldl_step hlimit text.toList).finish
  refine ⟨Builder.like_build ?_, ?_⟩
  · exact List.rel_reverse hdone.events
  · exact List.rel_reverse hdone.reports

end Formwork
