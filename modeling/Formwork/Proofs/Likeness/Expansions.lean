import Formwork.Proofs.Likeness.Templates

namespace Formwork

/-!
# Expansions that are alike

Expanding documents that are alike, with templates that are alike, gives documents that are alike
and reports that are alike: which rule an invocation calls, whether it may, and what it binds, does
not depend on what a likeness leaves open.

* `Invocation.twin_ofNode` — reading a call.
* `Substitution.Twin.nodesAll` — filling in a body.
* `Rule.Twin.expand` — what takes the place of a call.
* `Expander.respects` — expanding.
* `Options.like_expandNodes` — the stages after including.
-/

variable {L : Likeness}

/-! ### Calls -/

/-- Whether two calls are alike. -/
structure Invocation.Twin (L : Likeness) (inv inv' : Invocation) : Prop where
  name : inv'.name = inv.name
  node : L.Twin inv.node inv'.node
  arguments : Entries L.Twin inv.arguments inv'.arguments
  remainder : List.Forall₂ L.Twin inv.remainder inv'.remainder

namespace Invocation

/-- What is left after the keyword arguments is taken by both readers, or refused for the same
    keyword. -/
theorem twin_readRemainder (hL : L.Lawful) {ns ms : List Node} (h : List.Forall₂ L.Twin ns ms) :
    L.Agree (List.Forall₂ L.Twin) (readRemainder ns) (readRemainder ms) := by
  -- the first keyword that comes late stands at the same place in both
  have hfind : Option.Rel (fun a b => b.1 = a.1 ∧ L.Twin a.2 b.2)
      (ns.findSome? fun n => n.keyword?.map fun key => (key, n))
      (ms.findSome? fun n => n.keyword?.map fun key => (key, n)) := by
    induction h with
    | nil => exact .none
    | cons hn _ ih =>
      rw [List.findSome?_cons, List.findSome?_cons, hn.keyword?]
      cases Node.keyword? _ with
      | none => exact ih
      | some key => exact .some ⟨rfl, hn⟩
  unfold readRemainder
  generalize (ns.findSome? fun n => n.keyword?.map fun key => (key, n)) = x at hfind ⊢
  generalize (ms.findSome? fun n => n.keyword?.map fun key => (key, n)) = y at hfind ⊢
  cases hfind with
  | none => exact .ok h
  | @some a b hab =>
    obtain ⟨key, n⟩ := a
    obtain ⟨key', m⟩ := b
    obtain ⟨hkey, hnm⟩ := hab
    obtain rfl : key' = key := hkey
    exact .error (Report.like_atNode hnm (hL.problem _))

/-- Reading arguments. The induction is that of `readArguments` on the first list. -/
theorem twin_readArguments (hL : L.Lawful) {seen seen' : List (String × Node)}
    (hseen : Entries L.Twin seen seen') {ns ms : List Node} (h : List.Forall₂ L.Twin ns ms) :
    L.Agree (fun r q => Entries L.Twin r.1 q.1 ∧ List.Forall₂ L.Twin r.2 q.2)
      (readArguments seen ns) (readArguments seen' ms) := by
  -- one case for each way the reader goes on: no nodes are left, the next one is no keyword, it has
  -- no value, it was given before, or it is one argument more
  fun_induction readArguments seen ns generalizing seen' ms with
  | case1 seen =>
    cases h
    exact .ok ⟨hseen, .nil⟩
  | case2 seen n ns hkey =>
    cases h with
    | @cons _ m _ ms hn hns =>
      have hkey' : m.keyword? = none := by rw [hn.keyword?, hkey]
      simp only [readArguments.eq_def seen', hkey']
      exact (twin_readRemainder hL (.cons hn hns)).map fun r q hrq => ⟨hseen, hrq⟩
  | case3 seen n key hkey =>
    cases h with
    | @cons _ m _ ms hn hns =>
      cases hns
      have hkey' : m.keyword? = some key := by rw [hn.keyword?, hkey]
      simp only [readArguments.eq_def seen', hkey']
      exact .error (Report.like_atNode hn (hL.problem _))
  | case4 seen n key value ns hkey hdup =>
    cases h with
    | @cons _ m _ ms hn hns =>
      cases hns with
      | cons hvalue hns =>
        have hkey' : m.keyword? = some key := by rw [hn.keyword?, hkey]
        rw [← hseen.any_key] at hdup
        simp only [readArguments.eq_def seen', hkey', if_pos hdup]
        exact .error (Report.like_atNode hvalue (hL.problem _))
  | case5 seen n key value ns hkey hdup ih =>
    cases h with
    | @cons _ m _ ms hn hns =>
      cases hns with
      | cons hvalue hns =>
        have hkey' : m.keyword? = some key := by rw [hn.keyword?, hkey]
        rw [← hseen.any_key] at hdup
        simp only [readArguments.eq_def seen', hkey', if_neg hdup]
        refine ih ?_ hns
        exact List.rel_append hseen (.cons ⟨rfl, hvalue⟩ .nil)

/-- **Reading nodes that are alike as calls** gives calls or reports that are alike. -/
theorem twin_ofNode (hL : L.Lawful) {n m : Node} (h : L.Twin n m) :
    L.Agree (Twin L) (ofNode n) (ofNode m) := by
  unfold ofNode
  rw [h.isGroup]
  split
  · exact .error (Report.like_atNode h (hL.problem _))
  · obtain ⟨hn, hm⟩ | ⟨a, b, hn, hm, hab⟩ := h.head?
    · rw [hn, hm]
      exact .error (Report.like_atNode h (hL.problem _))
    · simp only [hn, hm]
      cases hab with
      | group hdelim hcs hplace hstop =>
        exact .error (Report.like_atNode (.group hdelim hcs hplace hstop) (hL.problem _))
      | atom hvalue _ _ =>
        exact (twin_readArguments hL .nil h.tail).map fun r q hrq =>
          ⟨hvalue.symm, h, hrq.1, hrq.2⟩

namespace Twin

variable {inv inv' : Invocation}

/-- The argument for a key is given in both calls or in neither, and is alike. -/
theorem argument? (h : inv.Twin L inv') (key : String) :
    Option.Rel L.Twin (inv.argument? key) (inv'.argument? key) :=
  h.arguments.find? key

/-- So the same keyword arguments are missing. -/
theorem isNone_argument? (h : inv.Twin L inv') (key : String) :
    (inv'.argument? key).isNone = (inv.argument? key).isNone := by
  have hargument := h.argument? key
  generalize inv.argument? key = x at hargument ⊢
  generalize inv'.argument? key = y at hargument ⊢
  cases hargument <;> rfl

end Twin

end Invocation

/-- **What is wrong with the arguments of calls that are alike** is reported alike. -/
theorem Shape.like_violations (hL : L.Lawful) (s : Shape) {inv inv' : Invocation}
    (h : inv.Twin L inv') : Report.LikeAll L (s.violations inv) (s.violations inv') := by
  have hlength := h.remainder.length_eq
  -- the four kinds of violations are reported one after another
  refine ((Report.LikeAll.append ?missing ?unexpected).append ?tooFew).append ?tooMany
  case missing =>
    unfold Shape.missing
    rw [h.name, funext h.isNone_argument?]
    refine List.rel_map (R := Eq) ?_ (List.forall₂_eq_eq_eq ▸ rfl)
    rintro key _ rfl
    exact Report.like_atNode h.node (hL.problem _)
  case unexpected =>
    unfold Shape.unexpected
    rw [h.name]
    refine List.rel_map ?_ (List.rel_filter ?_ h.arguments)
    · rintro ⟨key, a⟩ ⟨_, b⟩ ⟨rfl, hab⟩
      exact Report.like_atNode hab (hL.problem _)
    · rintro ⟨key, a⟩ ⟨_, b⟩ ⟨rfl, hab⟩
      exact Iff.rfl
  case tooFew =>
    unfold Shape.tooFew
    rw [h.name, ← hlength]
    split
    · exact .singleton (Report.like_atNode h.node (hL.problem _))
    · exact .nil
  case tooMany =>
    unfold Shape.tooMany
    split
    · exact .nil
    case h_2 max _ =>
      have hdrop := List.forall₂_drop max h.remainder
      rw [h.name, ← hlength]
      generalize inv.remainder.drop max = ns at hdrop ⊢
      generalize inv'.remainder.drop max = ms at hdrop ⊢
      cases hdrop with
      | nil => exact .nil
      | cons hn _ => exact .singleton (Report.like_atNode hn (hL.problem _))

/-! ### Bodies -/

/-- Whether two calls of a body, from places that count as the same, bind values that are alike. -/
structure Substitution.Twin (L : Likeness) (s t : Substitution) : Prop where
  callSite : L.place s.callSite t.callSite
  bindings : Entries (Like L) s.bindings t.bindings

namespace Substitution.Twin

variable {s t : Substitution}

/-- A placeholder stands for nodes that are alike. -/
theorem bound? (h : s.Twin L t) (value : String) :
    Option.Rel (Like L) (s.bound? value) (t.bound? value) := by
  unfold Substitution.bound?
  split
  · exact h.bindings.lookup _
  · exact .none

/-- A place in the body, seen from the calls, counts as the same. -/
theorem relocate (hL : L.Lawful) (h : s.Twin L t) {l l' : Location} (hl : L.place l l') :
    L.place (s.relocate l) (t.relocate l') :=
  hL.call _ _ _ _ h.callSite hl

/-- **Filling in bodies that are alike.** -/
theorem nodesAll (hL : L.Lawful) (h : s.Twin L t) {ns ms : List Node} (hns : Like L ns ms) :
    Like L (s.nodesAll ns) (t.nodesAll ms) := by
  induction hns with
  | nil => exact .nil
  | dropped hdrop _ ih => exact .dropped hdrop ih
  | comment hkeep htext hplace _ ih => exact .comment hkeep htext (h.relocate hL hplace) ih
  | @atom a b ns ms hvalue hquoted hplace _ ih =>
    -- a bound placeholder gives way to its values; any other atom stays, seen from the call
    have hbound := h.bound? a.value
    rw [Substitution.nodesAll, Substitution.nodesAll, Substitution.nodes, Substitution.nodes,
      ← hvalue]
    generalize s.bound? a.value = x at hbound ⊢
    generalize t.bound? a.value = y at hbound ⊢
    cases hbound with
    | none => exact .atom rfl hquoted (h.relocate hL hplace) ih
    | some hvalues => exact hvalues.append ih
  | group hdelim _ hplace hstop _ ihcs ih =>
    exact .group hdelim ihcs (h.relocate hL hplace) (h.relocate hL hstop) ih

end Substitution.Twin

/-- What is given for a parameter, or its fallback. -/
theorem Fallback.Twin.or_bound? {f g : Fallback} (h : f.Twin L g) {x y : Option Node}
    (hxy : Option.Rel L.Twin x y) :
    Option.Rel (Like L) ((x.map fun n => [n]).or f.bound?) ((y.map fun n => [n]).or g.bound?) := by
  cases hxy with
  | none => exact h.bound
  | some hnm => exact .some hnm.like

/-- What the positional parameters take. The arguments are used up one by one as the fallbacks are. -/
theorem Template.like_bindPositional {fs gs : List Fallback}
    (hfs : List.Forall₂ (Fallback.Twin L) fs gs) (number : Nat) {ns ms : List Node}
    (hns : List.Forall₂ L.Twin ns ms) :
    Entries (Like L) (bindPositional number fs ns) (bindPositional number gs ms) := by
  induction hfs generalizing number ns ms with
  | nil => exact .nil
  | @cons f g fs gs hfg _ ih =>
    -- the next argument is there for both or for neither, and so are those after it
    have hhead : Option.Rel L.Twin ns.head? ms.head? := by
      cases hns with
      | nil => exact .none
      | cons hnm _ => exact .some hnm
    have htail : List.Forall₂ L.Twin ns.tail ms.tail := by
      cases hns with
      | nil => exact .nil
      | cons _ hns => exact hns
    refine List.rel_append ?_ (ih (number + 1) htail)
    have hbound := hfg.or_bound? hhead
    generalize ((ns.head?.map fun n => [n]).or f.bound?) = x at hbound ⊢
    generalize ((ms.head?.map fun n => [n]).or g.bound?) = y at hbound ⊢
    cases hbound with
    | none => exact .nil
    | some hvalues => exact .cons ⟨rfl, hvalues⟩ .nil

namespace Template.Twin

variable {t u : Template} {inv inv' : Invocation}

/-- Templates that are alike have the same shape. -/
theorem shape (h : t.Twin L u) : u.shape = t.shape := by
  have hrequired : (u.named.filter (·.2.isRequired)).map Prod.fst
      = (t.named.filter (·.2.isRequired)).map Prod.fst := by
    have hfiltered : Entries (Fallback.Twin L) (t.named.filter (·.2.isRequired))
        (u.named.filter (·.2.isRequired)) :=
      List.rel_filter (fun a b hab => by simp only [hab.2.isRequired]) h.named
    exact hfiltered.keys
  have hmin : u.positional.countP Fallback.isRequired = t.positional.countP Fallback.isRequired := by
    have hcount := congrArg (List.countP id) h.required
    simpa [List.countP_map, Function.comp_def] using hcount
  simp only [Template.shape, h.name, hrequired, h.named.keys, hmin, h.isSome_rest,
    h.length_positional]

/-- The keywords are bound to what was given for them, or to their defaults. -/
theorem bindNamed (h : t.Twin L u) {as bs : List (String × Node)} (has : Entries L.Twin as bs) :
    Entries (Like L) (t.bindNamed as) (u.bindNamed bs) := by
  refine List.rel_filterMap (fun p q hpq => ?_) h.named
  have hbound := hpq.2.or_bound? (has.lookup p.1)
  simp only [hpq.1]
  generalize (((as.lookup p.1).map fun n => [n]).or p.2.bound?) = x at hbound ⊢
  generalize (((bs.lookup p.1).map fun n => [n]).or q.2.bound?) = y at hbound ⊢
  cases hbound with
  | none => exact .none
  | some hvalues => exact .some ⟨rfl, hvalues⟩

/-- What the rest parameter takes. -/
theorem bindRest (h : t.Twin L u) {ns ms : List Node} (hns : List.Forall₂ L.Twin ns ms) :
    Entries (Like L) (t.bindRest ns) (u.bindRest ms) := by
  have hdefaults := h.rest
  have hleftover := List.forall₂_drop t.positional.length hns
  unfold Template.bindRest
  rw [h.length_positional]
  generalize t.rest = x at hdefaults ⊢
  generalize u.rest = y at hdefaults ⊢
  generalize ns.drop t.positional.length = ns' at hleftover ⊢
  generalize ms.drop t.positional.length = ms' at hleftover ⊢
  cases hdefaults with
  | none => exact .nil
  | some hds =>
    refine .cons ⟨rfl, ?_⟩ .nil
    cases hleftover with
    | nil => exact hds
    | cons hn hns => exact .of_twins (.cons hn hns)

/-- What is bound to the parameters of templates that are alike. -/
theorem bind (h : t.Twin L u) (hinv : inv.Twin L inv') :
    Entries (Like L) (t.bind inv) (u.bind inv') :=
  List.rel_append
    (List.rel_append (h.bindNamed hinv.arguments)
      (like_bindPositional h.positional 1 hinv.remainder))
    (h.bindRest hinv.remainder)

end Template.Twin

/-! ### Rules -/

/-- Joining parts that are alike gives the same text, and reports that are alike. -/
theorem Concat.twin_transform (hL : L.Lawful) {inv inv' : Invocation} (h : inv.Twin L inv') :
    L.Twin (transform inv).1 (transform inv').1 ∧
      Report.LikeAll L (transform inv).2 (transform inv').2 := by
  -- the made atom depends on the parts and the separator, which are values of atoms
  have hparts : parts inv' = parts inv := by
    unfold parts
    have hremainder := h.remainder
    generalize inv.remainder = ns at hremainder ⊢
    generalize inv'.remainder = ms at hremainder ⊢
    induction hremainder with
    | nil => rfl
    | cons hnm _ ih => rw [List.filterMap_cons, List.filterMap_cons, hnm.value?, ih]
  have hunjoinable : Report.LikeAll L (unjoinable inv) (unjoinable inv') := by
    refine List.rel_map (R := L.Twin) (fun n m hnm => ?_)
      (List.rel_filter (fun n m hnm => ?_) h.remainder)
    · exact Report.like_atNode hnm (hL.problem _)
    · simp only [hnm.isNone_atom?]
  have hseparator : (separator inv').1 = (separator inv).1 ∧
      Report.LikeAll L (separator inv).2 (separator inv').2 := by
    have hargument := h.argument? "separator"
    unfold separator
    generalize inv.argument? "separator" = x at hargument ⊢
    generalize inv'.argument? "separator" = y at hargument ⊢
    cases hargument with
    | none => exact ⟨rfl, .nil⟩
    | some hnm =>
      cases hnm with
      | atom hvalue _ _ => exact ⟨hvalue.symm, .nil⟩
      | group hdelim hcs hplace hstop =>
        refine ⟨rfl, .singleton ?_⟩
        exact Report.like_atNode (.group hdelim hcs hplace hstop) (hL.problem _)
  refine ⟨?_, hunjoinable.append hseparator.2⟩
  show L.Twin (.atom (Atom.plain ((separator inv).1.intercalate (parts inv)) inv.node.location))
    (.atom (Atom.plain ((separator inv').1.intercalate (parts inv')) inv'.node.location))
  rw [hparts, hseparator.1]
  exact .atom rfl rfl h.node.location

/-- Making a name from stems that are alike gives the same name, and reports that are alike. -/
theorem UniqueName.twin_transform (hL : L.Lawful) {inv inv' : Invocation} (h : inv.Twin L inv')
    (number : Nat) :
    L.Twin (transform number inv).1 (transform number inv').1 ∧
      Report.LikeAll L (transform number inv).2 (transform number inv').2 := by
  -- the made name depends on the stem and on the number, which is the same
  have hstem : (stem inv').1 = (stem inv).1 ∧ Report.LikeAll L (stem inv).2 (stem inv').2 := by
    have hremainder := h.remainder
    unfold stem
    generalize inv.remainder = ns at hremainder ⊢
    generalize inv'.remainder = ms at hremainder ⊢
    cases hremainder with
    | nil => exact ⟨rfl, .nil⟩
    | cons hnm _ =>
      cases hnm with
      | atom hvalue _ _ => exact ⟨hvalue.symm, .nil⟩
      | group hdelim hcs hplace hstop =>
        refine ⟨rfl, .singleton ?_⟩
        exact Report.like_atNode (.group hdelim hcs hplace hstop) (hL.problem _)
  refine ⟨?_, hstem.2⟩
  show L.Twin (.atom (Atom.plain (nameText (stem inv).1 number) inv.node.location))
    (.atom (Atom.plain (nameText (stem inv').1 number) inv'.node.location))
  rw [hstem.1]
  exact .atom rfl rfl h.node.location

/-- Whether two rules are alike. -/
inductive Rule.Twin (L : Likeness) : Rule → Rule → Prop where
  | concat : Twin L .concat .concat
  | uniqueName : Twin L .uniqueName .uniqueName
  | template {t u : Template} (h : t.Twin L u) : Twin L (.template t) (.template u)

namespace Rule.Twin

variable {r r' : Rule}

/-- Rules that are alike take the same arguments. -/
theorem shape (h : r.Twin L r') : r'.shape = r.shape := by
  cases h with
  | concat => rfl
  | uniqueName => rfl
  | template h => exact h.shape

/-- They have the same name. -/
theorem name (h : r.Twin L r') : r'.name = r.name := by
  rw [Rule.name, h.shape, Rule.name]

/-- They make as many names. -/
theorem names (h : r.Twin L r') : r'.names = r.names := by
  cases h <;> rfl

/-- **What takes the place of calls that are alike** is alike. -/
theorem expand (hL : L.Lawful) (h : r.Twin L r') {inv inv' : Invocation} (hinv : inv.Twin L inv')
    (number : Nat) :
    Like L (Builder.build (r.expand number inv).events)
        (Builder.build (r'.expand number inv').events) ∧
      Report.LikeAll L (r.expand number inv).reports (r'.expand number inv').reports := by
  -- an expansion is replayed and built again, which makes its nodes plain
  have hone : ∀ {n m : Node}, L.Twin n m → Like L (Builder.build n.events) (Builder.build m.events) := by
    intro n m hnm
    rw [Builder.build_of_replays (Event.replays_events n),
      Builder.build_of_replays (Event.replays_events m)]
    exact hnm.like.plain
  cases h with
  | concat =>
    obtain ⟨hnode, hreports⟩ := Concat.twin_transform hL hinv
    exact ⟨hone hnode, hreports⟩
  | uniqueName =>
    obtain ⟨hnode, hreports⟩ := UniqueName.twin_transform hL hinv number
    exact ⟨hone hnode, hreports⟩
  | @template t u h =>
    refine ⟨?_, .nil⟩
    show Like L (Builder.build (t.transform inv).events) (Builder.build (u.transform inv').events)
    rw [Builder.build_of_replays (Substitution.replays_events _),
      Builder.build_of_replays (Substitution.replays_events _)]
    have hcall : (t.transform inv).Twin L (u.transform inv') := ⟨hinv.node.location, h.bind hinv⟩
    exact (hcall.nodesAll hL h.body).plain

end Rule.Twin

/-! ### Expanding -/

namespace Expander

/-- Whether two expanders have rules and reports that are alike, and have come equally far. -/
structure Twin (L : Likeness) (x y : Expander) : Prop where
  rules : List.Forall₂ (Rule.Twin L) x.rules y.rules
  maxDepth : y.maxDepth = x.maxDepth
  made : y.made = x.made
  active : y.active = x.active
  reports : Report.LikeAll L x.reports y.reports

namespace Twin

variable {x y : Expander}

/-- A rule of a name is there in both expanders or in neither. -/
theorem rule? (h : x.Twin L y) (name : String) :
    Option.Rel (Rule.Twin L) (x.rule? name) (y.rule? name) := by
  have hrules := h.rules
  unfold Expander.rule?
  generalize x.rules = rs at hrules ⊢
  generalize y.rules = qs at hrules ⊢
  induction hrules with
  | nil => exact .none
  | cons hr _ ih =>
    rw [List.find?_cons, List.find?_cons, hr.name]
    split
    · exact .some hr
    · exact ih

/-- Reports that are alike may be added to both. -/
theorem report (h : x.Twin L y) {rs qs : List Report} (hrs : Report.LikeAll L rs qs) :
    (x.report rs).Twin L (y.report qs) :=
  { h with reports := h.reports.append hrs }

variable {r r' : Rule} {inv inv' : Invocation}

/-- A call is refused by both or by neither, for the same reason: what is active, and how much of
    it, is the same. -/
theorem refusal (hL : L.Lawful) (h : x.Twin L y) (hr : r.Twin L r') (hinv : inv.Twin L inv') :
    Report.LikeAll L (x.refusal r inv) (y.refusal r' inv') := by
  unfold Expander.refusal
  rw [h.active, h.maxDepth, hinv.name, hr.shape]
  split
  · exact .singleton (Report.like_atNode hinv.node (hL.problem _))
  · split
    · exact .singleton (Report.like_atNode hinv.node (hL.problem _))
    · exact r.shape.like_violations hL hinv

/-- Calling rules that are alike. -/
theorem invoke (hL : L.Lawful) (h : x.Twin L y) (hr : r.Twin L r') (hinv : inv.Twin L inv') :
    (x.invoke r inv).1.Twin L (y.invoke r' inv').1 ∧
      Option.Rel (fun es fs => Like L (Builder.build es) (Builder.build fs))
        (x.invoke r inv).2 (y.invoke r' inv').2 := by
  have hrefusal := h.refusal hL hr hinv
  -- refusals are alike, so both calls go ahead or both are refused
  unfold Expander.invoke
  generalize x.refusal r inv = rs at hrefusal ⊢
  generalize y.refusal r' inv' = qs at hrefusal ⊢
  cases hrefusal with
  | nil =>
    obtain ⟨hnodes, hreports⟩ := hr.expand hL hinv (x.made + 1)
    simp only [h.made, hr.names, hinv.name, h.active]
    exact ⟨{ h.report hreports with made := rfl, active := rfl }, .some hnodes⟩
  | cons hq hqs => exact ⟨h.report (.cons hq hqs), .none⟩

/-- Replacing groups that are alike. -/
theorem replace (hL : L.Lawful) (h : x.Twin L y) {n m : Node} (hn : L.Twin n m) :
    (x.replace n).1.Twin L (y.replace m).1 ∧
      Option.Rel (fun es fs => Like L (Builder.build es) (Builder.build fs))
        (x.replace n).2 (y.replace m).2 := by
  have hof := Invocation.twin_ofNode hL hn
  unfold Expander.replace
  generalize Invocation.ofNode n = a at hof ⊢
  generalize Invocation.ofNode m = b at hof ⊢
  -- both groups are calls of one name, or neither is a call
  cases hof with
  | error hr => exact ⟨h.report (.singleton hr), .none⟩
  | @ok inv inv' hinv =>
    have hrule := h.rule? inv.name
    simp only [hinv.name]
    generalize x.rule? inv.name = u at hrule ⊢
    generalize y.rule? inv.name = v at hrule ⊢
    cases hrule with
    | none => exact ⟨h, .none⟩
    | some hr => exact h.invoke hL hr hinv

/-- A rule may be added to both, in place of earlier ones with its name. -/
theorem register (h : x.Twin L y) (hr : r.Twin L r') : (x.register r).Twin L (y.register r') := by
  refine { h with rules := ?_, made := ?_ }
  · refine List.rel_append (List.rel_filter ?_ h.rules) (.cons hr .nil)
    intro q q' hq
    simp only [hq.name, hr.name]
  · cases hr with
    | uniqueName => rfl
    | concat => exact h.made
    | template => exact h.made

/-- So may rules, one after another. -/
theorem registerAll {rs qs : List Rule} (hrs : List.Forall₂ (Rule.Twin L) rs qs)
    (h : x.Twin L y) : (x.registerAll rs).Twin L (y.registerAll qs) := by
  induction hrs generalizing x y with
  | nil => exact h
  | cons hr _ ih => exact ih (h.register hr)

end Twin

/-- **Expanding** does alike with documents that are alike. -/
theorem respects (hL : L.Lawful) : cutter.Respects L (Twin L) where
  cut x y head hxy := by
    refine ⟨hxy, ?_⟩
    have hrule := hxy.rule? head
    show ((y.rule? head).map _).isSome = ((x.rule? head).map _).isSome
    generalize x.rule? head = u at hrule ⊢
    generalize y.rule? head = v at hrule ⊢
    cases hrule <;> rfl
  paste _ _ _ _ hxy hg := hxy.replace hL hg
  pasted _ _ hxy := { hxy with active := congrArg List.tail hxy.active }

end Expander

/-- The expanders of documents with templates that are alike. -/
theorem Options.twin_expander {o o' : Options} (hbuiltin : o'.builtinRules = o.builtinRules)
    (hdepth : o'.maxExpansionDepth = o.maxExpansionDepth) {ts us : List Template}
    (h : List.Forall₂ (Template.Twin L) ts us) :
    (o.expander ts).Twin L (o'.expander us) := by
  have hrules : List.Forall₂ (Rule.Twin L)
      ((if o.builtinRules then Rule.builtins else []) ++ ts.map Rule.template)
      ((if o'.builtinRules then Rule.builtins else []) ++ us.map Rule.template) := by
    refine List.rel_append ?_ (List.rel_map (fun t u => .template) h)
    rw [hbuiltin]
    split
    · exact .cons .concat (.cons .uniqueName .nil)
    · exact .nil
  exact Expander.Twin.registerAll hrules ⟨.nil, hdepth, rfl, rfl, .nil⟩

/-- **The stages after including** do alike with documents that are alike once the comments that are
    not to be kept are out. -/
theorem Options.like_expandNodes (hL : L.Lawful) {o o' : Options}
    (hbuiltin : o'.builtinRules = o.builtinRules)
    (hdepth : o'.maxExpansionDepth = o.maxExpansionDepth) {ns ms : List Node}
    (h : Like L (Node.withComments o.keepComments ns) (Node.withComments o'.keepComments ms)) :
    Like L (o.expandNodes ns).1 (o'.expandNodes ms).1 ∧
      Report.LikeAll L (o.expandNodes ns).2 (o'.expandNodes ms).2 := by
  obtain ⟨s, ks, x, us, hstrip, hexpand, heq⟩ := o.exists_rewrites ns
  obtain ⟨s', ks', x', us', hstrip', hexpand', heq'⟩ := o'.exists_rewrites ms
  have hstripped := (Stripper.respects hL).rewrite 0 _ _ {} {} ⟨.nil, .nil⟩ h.plain
  rw [hstrip, hstrip'] at hstripped
  obtain ⟨hs, hks⟩ : s.Twin L s' ∧ Like L ks ks' := by
    cases hstripped with
    | some h => exact h
  have hstart := Options.twin_expander hbuiltin hdepth hs.templates
  -- both expanders have as many rules, so they are given as many levels
  have hexpanded := (Expander.respects hL).rewrite (o.expander s.templates).rules.length _ _ _ _
    hstart hks
  rw [hexpand, hstart.rules.length_eq, hexpand'] at hexpanded
  obtain ⟨hx, hus⟩ : x.Twin L x' ∧ Like L us us' := by
    cases hexpanded with
    | some h => exact h
  rw [heq, heq']
  exact ⟨hus, hs.reports.append hx.reports⟩

end Formwork
