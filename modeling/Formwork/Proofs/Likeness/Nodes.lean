import Mathlib.Data.List.Forall2
import Formwork.Proofs.Pipeline.Stages

namespace Formwork

/-!
# Documents that are alike

Two documents that differ only in what nothing should depend on: in where they were written, in the
brackets of their groups, or in that one of them has lost its comments. A `Likeness` says which of
these differences there may be, and `Like` that two lists of nodes differ in nothing else. This
module reads nodes that are alike, and runs cutters over them.

* `Like` — the relation, on lists of nodes.
* `Likeness.Twin` — two nodes that are alike and no comments; `Like.exprs` — the nodes that are no
  comments are twins, one by one.
* `Like.sameAll_seen`, `Like.of_sameAll_seen` — a likeness that is sameness up to brackets.
* `Cutter.Respects.rewrite` — a cutter that does alike with groups that are alike does alike with
  nodes that are alike.
-/

/-- The differences that there may be between two documents. -/
structure Likeness where
  /-- Locations that count as the same. -/
  place : Location → Location → Prop
  /-- Brackets that count as the same. -/
  bracket : Delim → Delim → Prop
  /-- Problems that count as the same. -/
  problem : Problem → Problem → Prop
  /-- Whether both documents have the comments, or only the first. -/
  comments : Bool

/-- Whether two lists of nodes are alike. Atoms are as long as they have the same value and are
    quoted alike, whatever their places. -/
inductive Like (L : Likeness) : List Node → List Node → Prop where
  | nil : Like L [] []
  /-- A comment of the first list is missing in the second, which has none. -/
  | dropped {c : Comment} {ns ms : List Node} (hdrop : L.comments = false) (hrest : Like L ns ms) :
      Like L (.comment c :: ns) ms
  /-- Or it is there with the same text. -/
  | comment {c c' : Comment} {ns ms : List Node} (hkeep : L.comments = true)
      (htext : c.text = c'.text) (hplace : L.place c.location c'.location)
      (hrest : Like L ns ms) : Like L (.comment c :: ns) (.comment c' :: ms)
  | atom {a b : Atom} {ns ms : List Node} (hvalue : a.value = b.value) (hquoted : a.quoted = b.quoted)
      (hplace : L.place a.location b.location) (hrest : Like L ns ms) :
      Like L (.atom a :: ns) (.atom b :: ms)
  /-- Groups have brackets that are alike, and contents that are. -/
  | group {d d' : Delim} {cs cs' : List Node} {l l' s s' : Location} {ns ms : List Node}
      (hdelim : L.bracket d d') (hcs : Like L cs cs') (hplace : L.place l l') (hstop : L.place s s')
      (hrest : Like L ns ms) : Like L (.group d cs l s :: ns) (.group d' cs' l' s' :: ms)

variable {L : Likeness}

/-- Whether two nodes are alike and no comments. -/
inductive Likeness.Twin (L : Likeness) : Node → Node → Prop where
  | atom {a b : Atom} (hvalue : a.value = b.value) (hquoted : a.quoted = b.quoted)
      (hplace : L.place a.location b.location) : L.Twin (.atom a) (.atom b)
  | group {d d' : Delim} {cs cs' : List Node} {l l' s s' : Location} (hdelim : L.bracket d d')
      (hcs : Like L cs cs') (hplace : L.place l l') (hstop : L.place s s') :
      L.Twin (.group d cs l s) (.group d' cs' l' s')

/-! ### Lists -/

namespace Like

/-- Lists that are alike may be put together. -/
theorem append {ns ms ns' ms' : List Node} (h : Like L ns ms) (h' : Like L ns' ms') :
    Like L (ns ++ ns') (ms ++ ms') := by
  induction h with
  | nil => exact h'
  | dropped hdrop _ ih => exact .dropped hdrop ih
  | comment hkeep htext hplace _ ih => exact .comment hkeep htext hplace ih
  | atom hvalue hquoted hplace _ ih => exact .atom hvalue hquoted hplace ih
  | group hdelim hcs hplace hstop _ _ ih => exact .group hdelim hcs hplace hstop ih

/-- The nodes that are no comments are twins, one by one. -/
theorem exprs {ns ms : List Node} (h : Like L ns ms) :
    List.Forall₂ L.Twin (ns.filter fun n => !n.isComment) (ms.filter fun n => !n.isComment) := by
  induction h with
  | nil => exact .nil
  | dropped _ _ ih => exact ih
  | comment _ _ _ _ ih => exact ih
  | atom hvalue hquoted hplace _ ih => exact .cons (.atom hvalue hquoted hplace) ih
  | group hdelim hcs hplace hstop _ _ ih => exact .cons (.group hdelim hcs hplace hstop) ih

/-- Nodes that are twins, one by one, are alike. -/
theorem of_twins {ns ms : List Node} (h : List.Forall₂ L.Twin ns ms) : Like L ns ms := by
  induction h with
  | nil => exact .nil
  | cons hn _ ih =>
    cases hn with
    | atom hvalue hquoted hplace => exact .atom hvalue hquoted hplace ih
    | group hdelim hcs hplace hstop => exact .group hdelim hcs hplace hstop ih

/-- Nodes that are alike are alike when they are made plain. -/
theorem plain {ns ms : List Node} (h : Like L ns ms) :
    Like L (Node.plainAll ns) (Node.plainAll ms) := by
  induction h with
  | nil => exact .nil
  | dropped hdrop _ ih => exact .dropped hdrop ih
  | comment hkeep htext hplace _ ih => exact .comment hkeep htext hplace ih
  | @atom a b _ _ hvalue _ hplace _ ih =>
    have hquoted : (Atom.plain a.value a.location).quoted = (Atom.plain b.value b.location).quoted :=
      congrArg (fun value : String => needsQuotes value.toList) hvalue
    exact .atom hvalue hquoted hplace ih
  | group hdelim _ hplace hstop _ ihcs ih => exact .group hdelim ihcs hplace hstop ih

end Like

/-! ### Reading twins -/

namespace Likeness.Twin

variable {n m : Node}

/-- Twins are alike, as lists of one node. -/
theorem like (h : L.Twin n m) : Like L [n] [m] := .of_twins (.cons h .nil)

/-- Twins stand at places that count as the same. -/
theorem location (h : L.Twin n m) : L.place n.location m.location := by
  cases h with
  | atom _ _ hplace => exact hplace
  | group _ _ hplace _ => exact hplace

/-- The twin of a group is a group. -/
theorem isGroup (h : L.Twin n m) : m.isGroup = n.isGroup := by
  cases h <;> rfl

/-- The twin of an atom has its value. -/
theorem value? (h : L.Twin n m) : m.atom?.map Atom.value = n.atom?.map Atom.value := by
  cases h with
  | atom hvalue _ _ => exact congrArg some hvalue.symm
  | group => rfl

/-- Twins are both atoms or both none. -/
theorem isNone_atom? (h : L.Twin n m) : m.atom?.isNone = n.atom?.isNone := by
  cases h <;> rfl

/-- The twin of a keyword is that keyword: it has the value, and quotes or none. -/
theorem keyword? (h : L.Twin n m) : m.keyword? = n.keyword? := by
  cases h with
  | atom hvalue hquoted _ =>
    simp only [Node.keyword?, Node.atom?, Option.bind_some, Atom.keyword?, hvalue, hquoted]
  | group => rfl

/-- The twin of a placeholder is that placeholder. -/
theorem placeholder? (h : L.Twin n m) : m.placeholder? = n.placeholder? := by
  cases h with
  | atom hvalue _ _ =>
    simp only [Node.placeholder?, Node.atom?, Option.bind_some, Atom.placeholder?, hvalue]
  | group => rfl

/-- The twin of an atom is an atom with its value. -/
theorem exists_atom (h : L.Twin n m) {a : Atom} (ha : n.atom? = some a) :
    ∃ b, m.atom? = some b ∧ b.value = a.value ∧ b.keyword? = a.keyword? := by
  have hkeyword := h.keyword?
  cases h with
  | group => cases ha
  | @atom a' b hvalue _ _ =>
    obtain rfl : a' = a := Option.some.inj ha
    exact ⟨b, rfl, hvalue.symm, hkeyword⟩

/-- What is inside twins is alike. -/
theorem children (h : L.Twin n m) : Like L n.children m.children := by
  cases h with
  | atom => exact .nil
  | group _ hcs _ _ => exact hcs

/-- The children that count are twins. -/
theorem exprs (h : L.Twin n m) : List.Forall₂ L.Twin n.exprs m.exprs := h.children.exprs

/-- The children after the head are twins. -/
theorem tail (h : L.Twin n m) : List.Forall₂ L.Twin n.tail m.tail :=
  List.forall₂_drop 1 h.exprs

/-- The first children that count are twins, if there are any. -/
theorem head? (h : L.Twin n m) :
    (n.head? = none ∧ m.head? = none) ∨
      ∃ a b, n.head? = some a ∧ m.head? = some b ∧ L.Twin a b := by
  have hexprs := h.exprs
  unfold Node.head?
  generalize n.exprs = ns at hexprs ⊢
  generalize m.exprs = ms at hexprs ⊢
  cases hexprs with
  | nil => exact .inl ⟨rfl, rfl⟩
  | cons hab _ => exact .inr ⟨_, _, rfl, rfl, hab⟩

/-- Twins have the same head. -/
theorem headName? (h : L.Twin n m) : m.headName? = n.headName? := by
  obtain ⟨hn, hm⟩ | ⟨a, b, hn, hm, hab⟩ := h.head?
  · rw [Node.headName?, Node.headName?, hn, hm]
  · rw [Node.headName?, Node.headName?, hn, hm]
    exact hab.value?

end Likeness.Twin

/-- What is no comment, among and inside the second nodes, has a twin among and inside the first. -/
theorem Like.exists_twin {ns ms : List Node} (h : Like L ns ms) {m : Node}
    (hm : m ∈ ms.flatMap Node.preorder) (hcomment : m.isComment = false) :
    ∃ n ∈ ns.flatMap Node.preorder, L.Twin n m := by
  -- a twin among the other nodes is one among them all
  have hrest : ∀ {k : Node} {ks : List Node}, (∃ n ∈ ks.flatMap Node.preorder, L.Twin n m) →
      ∃ n ∈ (k :: ks).flatMap Node.preorder, L.Twin n m := by
    rintro k ks ⟨n, hn, htwin⟩
    exact ⟨n, List.mem_append_right _ hn, htwin⟩
  induction h with
  | nil => cases hm
  | dropped _ _ ih => exact hrest (ih hm)
  | comment _ _ _ _ ih =>
    obtain hm | hm := List.mem_append.mp hm
    · obtain rfl := List.mem_singleton.mp hm
      cases hcomment
    · exact hrest (ih hm)
  | atom hvalue hquoted hplace _ ih =>
    obtain hm | hm := List.mem_append.mp hm
    · obtain rfl := List.mem_singleton.mp hm
      exact ⟨_, List.mem_append_left _ (List.mem_singleton_self _), .atom hvalue hquoted hplace⟩
    · exact hrest (ih hm)
  | group hdelim hcs hplace hstop _ ihcs ih =>
    rw [List.flatMap_cons, Node.preorder_group] at hm ⊢
    obtain hm | hm := List.mem_append.mp hm
    · obtain rfl | hm := List.mem_cons.mp hm
      · exact ⟨_, List.mem_cons_self, .group hdelim hcs hplace hstop⟩
      · obtain ⟨n, hn, htwin⟩ := ihcs hm
        exact ⟨n, List.mem_append_left _ (List.mem_cons_of_mem _ hn), htwin⟩
    · obtain ⟨n, hn, htwin⟩ := ih hm
      exact ⟨n, List.mem_append_right _ hn, htwin⟩

/-- So has what has a head. -/
theorem Like.exists_twin_of_head {ns ms : List Node} (h : Like L ns ms) {m : Node}
    (hm : m ∈ ms.flatMap Node.preorder) {head : String} (hhead : m.headName? = some head) :
    ∃ n ∈ ns.flatMap Node.preorder, L.Twin n m := by
  cases m with
  | group => exact h.exists_twin hm rfl
  | atom => cases hhead
  | comment => cases hhead

/-! ### Nodes that are seen as the same -/

/-- Whether a likeness is that of the nodes that are the same once they are seen by `seen`, which
    changes nothing but brackets, by `see`. Comments and their texts count, locations do not. -/
structure Likeness.IsSeenBy (L : Likeness) (see : Delim → Delim) (seen : Node → Node) : Prop where
  comments : L.comments = true
  place : ∀ l l', L.place l l'
  bracket : ∀ {d d'}, L.bracket d d' ↔ see d = see d'
  atom : ∀ a, seen (.atom a) = .atom a
  comment : ∀ c, seen (.comment c) = .comment c
  group : ∀ d cs l s, seen (.group d cs l s) = .group (see d) (cs.map seen) l s

namespace Like
variable {see : Delim → Delim} {seen : Node → Node}

/-- Nodes that are alike are seen as the same. -/
theorem sameAll_seen (hL : L.IsSeenBy see seen) {ns ms : List Node} (h : Like L ns ms) :
    Node.sameAll (ns.map seen) (ms.map seen) = true := by
  induction h with
  | nil => rfl
  | dropped hdrop => exact absurd (hdrop.symm.trans hL.comments) (by simp)
  | comment _ htext _ _ ih =>
    simp only [List.map_cons, hL.comment, Node.sameAll, Node.same, htext, ih, decide_true,
      Bool.and_self]
  | atom hvalue _ _ _ ih =>
    simp only [List.map_cons, hL.atom, Node.sameAll, Node.same, hvalue, ih, decide_true,
      Bool.and_self]
  | group hdelim _ _ _ _ ihcs ih =>
    simp only [List.map_cons, hL.group, Node.sameAll, Node.same, hL.bracket.mp hdelim, ihcs, ih,
      decide_true, Bool.and_self]

mutual

/-- Plain nodes that are seen as the same are alike. -/
theorem of_same_seen (hL : L.IsSeenBy see seen) : ∀ n m : Node, Node.same (seen n) (seen m) = true →
    Like L [n.plain] [m.plain]
  | .atom a, .atom b, h => by
    rw [hL.atom, hL.atom] at h
    have hvalue : a.value = b.value := by simpa only [Node.same, decide_eq_true_eq] using h
    refine .atom hvalue ?_ (hL.place _ _) .nil
    show needsQuotes a.value.toList = needsQuotes b.value.toList
    rw [hvalue]
  | .comment c, .comment c', h => by
    rw [hL.comment, hL.comment] at h
    have htext : c.text = c'.text := by simpa only [Node.same, decide_eq_true_eq] using h
    exact .comment hL.comments htext (hL.place _ _) .nil
  | .group d cs l s, .group d' cs' l' s', h => by
    rw [hL.group, hL.group, Node.same, Bool.and_eq_true, decide_eq_true_eq] at h
    exact .group (hL.bracket.mpr h.1) (of_sameAll_seen hL cs cs' h.2) (hL.place _ _)
      (hL.place _ _) .nil
  -- nodes of different kinds are seen as nodes of different kinds
  | .atom _, .comment _, h | .atom _, .group .., h | .comment _, .atom _, h
  | .comment _, .group .., h | .group .., .atom _, h | .group .., .comment _, h => by
    simp [hL.atom, hL.comment, hL.group, Node.same] at h

/-- So are plain lists of nodes. -/
theorem of_sameAll_seen (hL : L.IsSeenBy see seen) : ∀ ns ms : List Node,
    Node.sameAll (ns.map seen) (ms.map seen) = true → Like L (Node.plainAll ns) (Node.plainAll ms)
  | [], [], _ => .nil
  | n :: ns, m :: ms, h => by
    rw [List.map_cons, List.map_cons, Node.sameAll, Bool.and_eq_true] at h
    exact (of_same_seen hL n m h.1).append (of_sameAll_seen hL ns ms h.2)
  | [], _ :: _, h => nomatch h
  | _ :: _, [], h => nomatch h

end

end Like
/-! ### Reports -/

/-- Whether two reports are alike: of the same problem, at the same places in the same order. -/
structure Report.Like (L : Likeness) (r r' : Report) : Prop where
  problem : L.problem r.problem r'.problem
  places : List.Forall₂ L.place r.allLocations r'.allLocations

/-- Whether two lists of reports are alike, one by one. -/
def Report.LikeAll (L : Likeness) : List Report → List Report → Prop :=
  List.Forall₂ (Report.Like L)

namespace Report

/-- Reports of twins are alike. -/
theorem like_atNode {n m : Node} (h : L.Twin n m) {p q : Problem} (hp : L.problem p q) :
    (atNode p n).Like L (atNode q m) :=
  ⟨hp, .cons h.location .nil⟩

/-- Reports that are alike may be followed by others. -/
theorem LikeAll.append {rs ss rs' ss' : List Report} (h : LikeAll L rs ss) (h' : LikeAll L rs' ss') :
    LikeAll L (rs ++ rs') (ss ++ ss') :=
  List.rel_append h h'

/-- A single report. -/
theorem LikeAll.singleton {r r' : Report} (h : r.Like L r') : LikeAll L [r] [r'] := .cons h .nil

end Report

/-! ### Running cutters -/

namespace Cutter

variable {σ : Type} {cutter : Cutter σ Builder} {R : σ → σ → Prop}

/-- Whether a cutter does alike in two states when groups that are alike are handed over. -/
structure Respects (cutter : Cutter σ Builder) (L : Likeness) (R : σ → σ → Prop) : Prop where
  cut : ∀ s t head, R s t → R (cutter.cut s head).1 (cutter.cut t head).1 ∧
    (cutter.cut t head).2.isSome = (cutter.cut s head).2.isSome
  paste : ∀ s t g h, R s t → L.Twin g h →
    R (cutter.paste s (Builder.holding g)).1 (cutter.paste t (Builder.holding h)).1 ∧
      Option.Rel (fun es fs => Like L (Builder.build es) (Builder.build fs))
        (cutter.paste s (Builder.holding g)).2 (cutter.paste t (Builder.holding h)).2
  pasted : ∀ s t, R s t → R (cutter.pasted s) (cutter.pasted t)

/-- Whether two results of rewriting are alike. -/
def ResultsLike (L : Likeness) (R : σ → σ → Prop) :
    Option (σ × List Node) → Option (σ × List Node) → Prop :=
  Option.Rel fun r q => R r.1 q.1 ∧ Like L r.2 q.2

/-- Whether rewriting by `replay` does alike with nodes that are alike. -/
def RespectsOn (L : Likeness) (R : σ → σ → Prop)
    (replay : List Node → σ → Option (σ × List Node)) : Prop :=
  ∀ ns ms s t, R s t → Like L ns ms → ResultsLike L R (replay ns s) (replay ms t)

/-- Going on alike from results that are alike. -/
theorem ResultsLike.bind {x y : Option (σ × List Node)} (h : ResultsLike L R x y)
    {f g : σ × List Node → Option (σ × List Node)}
    (hfg : ∀ r q, R r.1 q.1 → Like L r.2 q.2 → ResultsLike L R (f r) (g q)) :
    ResultsLike L R (x.bind f) (y.bind g) := by
  cases h with
  | none => exact .none
  | some hr => exact hfg _ _ hr.1 hr.2

/-- Results that are alike may be changed alike. -/
theorem ResultsLike.map {x y : Option (σ × List Node)} (h : ResultsLike L R x y)
    {f g : σ × List Node → σ × List Node}
    (hfg : ∀ r q, R r.1 q.1 → Like L r.2 q.2 → R (f r).1 (g q).1 ∧ Like L (f r).2 (g q).2) :
    ResultsLike L R (x.map f) (y.map g) := by
  cases h with
  | none => exact .none
  | some hr => exact .some (hfg _ _ hr.1 hr.2)

variable {replay : List Node → σ → Option (σ × List Node)}

/-- Asked about one head, a cutter gives the same answer in both states. -/
theorem Respects.ask (h : cutter.Respects L R) {s t : σ} (hst : R s t) (head : Option String) :
    R (cutter.ask s head).1 (cutter.ask t head).1 ∧
      (cutter.ask t head).2 = (cutter.ask s head).2 := by
  cases head with
  | none => exact ⟨hst, rfl⟩
  | some name => exact h.cut s t name hst

/-- What takes the place of twins is alike. -/
theorem Respects.replace (h : cutter.Respects L R) (hr : RespectsOn L R replay) {g g' : Node}
    {s t : σ} (hst : R s t) (hg : L.Twin g g') :
    ResultsLike L R (cutter.replace replay g s) (cutter.replace replay g' t) := by
  obtain ⟨hstate, hanswer⟩ := h.paste s t g g' hst hg
  cases hs : cutter.paste s (Builder.holding g) with
  | mk s' answer =>
    cases ht : cutter.paste t (Builder.holding g') with
    | mk t' answer' =>
      rw [hs, ht] at hstate hanswer
      -- both answer or neither does, and the answers are alike
      cases hanswer with
      | none =>
        rw [replace_of_none hs, replace_of_none ht]
        exact .some ⟨hstate, .nil⟩
      | some hes =>
        rw [replace_of_some hs, replace_of_some ht]
        exact (hr _ _ s' t' hstate hes).map fun r q hrq hlike => ⟨h.pasted _ _ hrq, hlike⟩

/-- Rewriting nodes that are alike. The induction is on what makes them alike. -/
theorem Respects.rewriteAll (h : cutter.Respects L R) (hr : RespectsOn L R replay) :
    RespectsOn L R (cutter.rewriteAll replay) := by
  intro ns ms s t hst hlike
  induction hlike generalizing s t with
  | nil => exact .some ⟨hst, .nil⟩
  | @dropped c ns ms hdrop _ ih =>
    -- only the first of the two runs meets the comment
    have hrest : ResultsLike L R
        ((cutter.rewriteAll replay ns s).map fun r => (r.1, [.comment c] ++ r.2))
        ((cutter.rewriteAll replay ms t).map id) :=
      (ih s t hst).map fun r q hrq hlike => ⟨hrq, .dropped hdrop hlike⟩
    rw [Option.map_id_apply] at hrest
    simpa only [Cutter.rewriteAll, rewriteNode, Option.bind_some] using hrest
  | comment hkeep htext hplace _ ih =>
    simp only [Cutter.rewriteAll, rewriteNode, Option.bind_some]
    exact (ih s t hst).map fun r q hrq hlike => ⟨hrq, .comment hkeep htext hplace hlike⟩
  | atom hvalue hquoted hplace _ ih =>
    simp only [Cutter.rewriteAll, rewriteNode, Option.bind_some]
    exact (ih s t hst).map fun r q hrq hlike => ⟨hrq, .atom hvalue hquoted hplace hlike⟩
  | @group d d' cs cs' l l' stop stop' ns ms hdelim hcs hplace hstop _ ihcs ih =>
    -- the head is asked about, the children are rewritten, and the group is handed over or stays
    have hhead : (Node.group d' cs' l' stop').headName? = (Node.group d cs l stop).headName? :=
      (Likeness.Twin.group hdelim hcs hplace hstop).headName?
    obtain ⟨hasked, hsame⟩ := h.ask hst (Node.group d cs l stop).headName?
    have hnode : ResultsLike L R (cutter.rewriteNode replay (.group d cs l stop) s)
        (cutter.rewriteNode replay (.group d' cs' l' stop') t) := by
      rw [rewriteNode, rewriteNode, hhead]
      refine (ihcs _ _ hasked).bind fun r q hrq hlike => ?_
      have hgroup : L.Twin (.group d r.2 l stop) (.group d' q.2 l' stop') :=
        .group hdelim hlike hplace hstop
      rw [hsame]
      split
      · exact h.replace hr hrq hgroup
      · exact .some ⟨hrq, hgroup.like⟩
    rw [Cutter.rewriteAll, Cutter.rewriteAll]
    refine hnode.bind fun r q hrq hlike => ?_
    exact (ih r.1 q.1 hrq).map fun r' q' hrq' hlike' => ⟨hrq', hlike.append hlike'⟩

/-- **Cutting out does alike with documents that are alike**, if the cutter does. -/
theorem Respects.rewrite (h : cutter.Respects L R) (levels : Nat) :
    RespectsOn L R (cutter.rewrite levels) := by
  induction levels with
  | zero => exact h.rewriteAll fun _ _ _ _ _ _ => .none
  | succ levels ih => exact h.rewriteAll ih

end Cutter

end Formwork
