import Formwork.Proofs.Likeness.Nodes

namespace Formwork

/-!
# Templates that are alike

Reading definitions that are alike gives templates that are alike, or reports that are alike.

* `Likeness.Lawful` — what is asked of a likeness: that it goes along with reporting and calling.
* `Likeness.Agree` — two readings that both succeed alike, or both are reported alike.
* `Template.twin_define` — reading a definition.
* `Stripper.respects` — collecting the templates of a document.
-/

/-- What is asked of a likeness: a problem counts as the same as itself, and so do those that a
    malformed parameter has in both documents; and places in a body count as the same seen from calls
    that do. -/
structure Likeness.Lawful (L : Likeness) : Prop where
  problem : ∀ p, L.problem p p
  malformed : ∀ n m, L.Twin n m →
    L.problem (.malformedParameter n.text) (.malformedParameter m.text)
  call : ∀ l l' k k', L.place l l' → L.place k k' →
    L.place (l.via .template k) (l'.via .template k')

variable {L : Likeness}

/-! ### Readings -/

/-- Whether two readings give results in a relation, or reports that are alike. -/
inductive Likeness.Agree (L : Likeness) {α β : Type} (Rel : α → β → Prop) :
    Except Report α → Except Report β → Prop where
  | ok {a : α} {b : β} (h : Rel a b) : L.Agree Rel (.ok a) (.ok b)
  | error {r r' : Report} (h : r.Like L r') : L.Agree Rel (.error r) (.error r')

namespace Likeness.Agree

variable {α β γ δ : Type} {Rel : α → β → Prop} {Rel' : γ → δ → Prop} {x : Except Report α}
  {y : Except Report β}

/-- What is made of results that agree agrees. -/
theorem map (h : L.Agree Rel x y) {f : α → γ} {g : β → δ}
    (hfg : ∀ a b, Rel a b → Rel' (f a) (g b)) : L.Agree Rel' (x.map f) (y.map g) := by
  cases h with
  | ok h => exact .ok (hfg _ _ h)
  | error h => exact .error h

/-- Going on from results that agree, by steps that agree, gives results that agree. If one has
    failed, so has the other, with a report that is alike. -/
theorem bind (h : L.Agree Rel x y) {f : α → Except Report γ} {g : β → Except Report δ}
    (hfg : ∀ a b, Rel a b → L.Agree Rel' (f a) (g b)) : L.Agree Rel' (x >>= f) (y >>= g) := by
  cases h with
  | ok h => exact hfg _ _ h
  | error h => exact .error h

/-- Reading twins, one after another. -/
theorem foldlM {f : α → Node → Except Report α} {g : β → Node → Except Report β}
    (hfg : ∀ a b n m, Rel a b → L.Twin n m → L.Agree Rel (f a n) (g b m)) {ns ms : List Node}
    (hns : List.Forall₂ L.Twin ns ms) {a : α} {b : β} (hab : Rel a b) :
    L.Agree Rel (ns.foldlM f a) (ms.foldlM g b) := by
  induction hns generalizing a b with
  | nil => exact .ok hab
  | cons hn _ ih =>
    rw [List.foldlM_cons, List.foldlM_cons]
    exact (hfg a b _ _ hab hn).bind fun c d hcd => ih hcd

end Likeness.Agree

/-! ### Entries -/

/-- Whether two lists of entries have the same keys, and values in a relation. -/
def Entries {α β : Type} (Rel : α → β → Prop) : List (String × α) → List (String × β) → Prop :=
  List.Forall₂ fun a b => b.1 = a.1 ∧ Rel a.2 b.2

namespace Entries

variable {α β : Type} {Rel : α → β → Prop} {as : List (String × α)} {bs : List (String × β)}

/-- Entries that agree have the same keys, in the same order. -/
theorem keys (h : Entries Rel as bs) : bs.map Prod.fst = as.map Prod.fst := by
  induction h with
  | nil => rfl
  | cons hab _ ih => simp [hab.1, ih]

/-- So a key is there in both or in neither. -/
theorem any_key (h : Entries Rel as bs) (key : String) :
    bs.any (·.1 = key) = as.any (·.1 = key) := by
  have hkeys := congrArg (List.any · fun k => decide (k = key)) h.keys
  simpa [List.any_map, Function.comp_def] using hkeys

/-- What is found first under a key agrees. -/
theorem find? (h : Entries Rel as bs) (key : String) :
    Option.Rel Rel ((as.find? (·.1 = key)).map Prod.snd) ((bs.find? (·.1 = key)).map Prod.snd) := by
  induction h with
  | nil => exact .none
  | @cons a b _ _ hab _ ih =>
    rw [List.find?_cons, List.find?_cons, hab.1]
    split
    · exact .some hab.2
    · exact ih

/-- What is looked up under a key agrees. -/
theorem lookup (h : Entries Rel as bs) (key : String) :
    Option.Rel Rel (as.lookup key) (bs.lookup key) := by
  induction h with
  | nil => exact .none
  | @cons a b _ _ hab _ ih =>
    obtain ⟨k, x⟩ := a
    obtain ⟨k', y⟩ := b
    obtain ⟨hkey, hxy⟩ := hab
    obtain rfl : k' = k := hkey
    rw [List.lookup_cons, List.lookup_cons]
    split
    · exact .some hxy
    · exact ih

end Entries

/-! ### Parameters -/

/-- Whether two fallbacks are alike. -/
structure Fallback.Twin (L : Likeness) (f g : Fallback) : Prop where
  isRequired : g.isRequired = f.isRequired
  bound : Option.Rel (Like L) f.bound? g.bound?

/-- Whether two lists of defaults are twins, one by one, or both parameters have none. -/
def DefaultsTwin (L : Likeness) : Option (List Node) → Option (List Node) → Prop :=
  Option.Rel (List.Forall₂ L.Twin)

/-- Defaults are given in both or in neither. -/
theorem DefaultsTwin.isNone {ds es : Option (List Node)} (h : DefaultsTwin L ds es) :
    es.isNone = ds.isNone := by
  cases h <;> rfl

/-- What a parameter falls back on is made of its defaults, which are alike. -/
theorem Fallback.twin_ofDefaults? {ds es : Option (List Node)} (h : DefaultsTwin L ds es) :
    Option.Rel (Twin L) (ofDefaults? ds) (ofDefaults? es) := by
  cases h with
  | none => exact .some ⟨rfl, .none⟩
  | some hns =>
    cases hns with
    | nil => exact .some ⟨rfl, .some .nil⟩
    | cons hn hns =>
      cases hns with
      | nil => exact .some ⟨rfl, .some hn.like⟩
      | cons => exact .none

namespace Template

/-- Whether two templates are alike. -/
structure Twin (L : Likeness) (t u : Template) : Prop where
  name : u.name = t.name
  body : Like L t.body u.body
  named : Entries (Fallback.Twin L) t.named u.named
  positional : List.Forall₂ (Fallback.Twin L) t.positional u.positional
  rest : Option.Rel (Like L) t.rest u.rest

namespace Twin

variable {t u : Template}

/-- The same positional parameters have to be given. -/
theorem required (h : t.Twin L u) :
    u.positional.map Fallback.isRequired = t.positional.map Fallback.isRequired := by
  have hpositional := h.positional
  generalize t.positional = fs at hpositional ⊢
  generalize u.positional = gs at hpositional ⊢
  induction hpositional with
  | nil => rfl
  | cons hf _ ih => simp [hf.isRequired, ih]

/-- There are as many positional parameters. -/
theorem length_positional (h : t.Twin L u) : u.positional.length = t.positional.length :=
  h.positional.length_eq.symm

/-- Whether some positional parameter may be left out. -/
theorem any_optional (h : t.Twin L u) :
    u.positional.any (!·.isRequired) = t.positional.any (!·.isRequired) := by
  have hmap := congrArg (List.any · not) h.required
  simpa [List.any_map, Function.comp_def] using hmap

/-- Both take a rest, or neither does. -/
theorem isSome_rest (h : t.Twin L u) : u.rest.isSome = t.rest.isSome := by
  have hrest := h.rest
  generalize t.rest = r at hrest ⊢
  generalize u.rest = r' at hrest ⊢
  cases hrest <;> rfl

end Twin

/-- Whether two declarations make templates that are alike, or are of problems that count as the
    same. -/
inductive Declared (L : Likeness) : Except Problem Template → Except Problem Template → Prop where
  | ok {t u : Template} (h : t.Twin L u) : Declared L (.ok t) (.ok u)
  | error {p q : Problem} (h : L.problem p q) : Declared L (.error p) (.error q)

section

variable {t u : Template} {p q : Problem} {ds es : Option (List Node)}

/-- A positional parameter joins both templates, or is wrong for the same reason in both: what is
    looked at is how many there are and which have defaults. -/
theorem declared_positional (hL : L.Lawful) (h : t.Twin L u) (hp : L.problem p q)
    (hds : DefaultsTwin L ds es) (arg : String) (index : Nat) :
    Declared L (t.declarePositional p arg index ds) (u.declarePositional q arg index es) := by
  unfold declarePositional
  rw [h.length_positional, h.any_optional, hds.isNone]
  split
  · exact .error (hL.problem _)
  · split
    · exact .error (hL.problem _)
    · have hfallback := Fallback.twin_ofDefaults? hds
      generalize Fallback.ofDefaults? ds = f at hfallback ⊢
      generalize Fallback.ofDefaults? es = g at hfallback ⊢
      cases hfallback with
      | none => exact .error hp
      | some hfg =>
        exact .ok { h with positional := List.rel_append h.positional (.cons hfg .nil) }

/-- A rest parameter joins both templates, or neither. -/
theorem declared_rest (hL : L.Lawful) (h : t.Twin L u) (hds : DefaultsTwin L ds es) :
    Declared L (t.declareRest ds) (u.declareRest es) := by
  unfold declareRest
  rw [h.isSome_rest]
  split
  · exact .error (hL.problem _)
  · refine .ok { h with rest := .some ?_ }
    cases hds with
    | none => exact .nil
    | some hns => exact .of_twins hns

/-- A keyword joins both templates, or neither: they have the same names. -/
theorem declared_named (hL : L.Lawful) (h : t.Twin L u) (hp : L.problem p q)
    (hds : DefaultsTwin L ds es) (arg : String) :
    Declared L (t.declareNamed p arg ds) (u.declareNamed q arg es) := by
  unfold declareNamed
  rw [h.named.any_key]
  split
  · exact .error (hL.problem _)
  · have hfallback := Fallback.twin_ofDefaults? hds
    generalize Fallback.ofDefaults? ds = f at hfallback ⊢
    generalize Fallback.ofDefaults? es = g at hfallback ⊢
    cases hfallback with
    | none => exact .error hp
    | some hfg => exact .ok { h with named := List.rel_append h.named (.cons ⟨rfl, hfg⟩ .nil) }

/-- Declaring a parameter by its name. -/
theorem declared_as (hL : L.Lawful) (h : t.Twin L u) (hp : L.problem p q)
    (hds : DefaultsTwin L ds es) (arg : String) :
    Declared L (t.declareAs p arg ds) (u.declareAs q arg es) := by
  unfold declareAs
  split
  · exact declared_positional hL h hp hds arg _
  · split
    · exact .error hp
    · split
      · exact declared_rest hL h hds
      · exact declared_named hL h hp hds arg

end

/-- Reading a parameter gives the same name and defaults that are twins. -/
theorem twin_readParameter {n m : Node} (h : L.Twin n m) :
    Option.Rel (fun a b => b.1 = a.1 ∧ DefaultsTwin L a.2 b.2) (readParameter n)
      (readParameter m) := by
  cases h with
  | @atom a b hvalue hquoted hplace =>
    have hname : b.placeholder? = a.placeholder? := by rw [Atom.placeholder?, ← hvalue]; rfl
    simp only [readParameter, hname]
    cases a.placeholder? with
    | none => exact .none
    | some arg => exact .some ⟨rfl, .none⟩
  | @group d d' cs cs' l l' s s' hdelim hcs hplace hstop =>
    have hgroup : L.Twin (.group d cs l s) (.group d' cs' l' s') := .group hdelim hcs hplace hstop
    have hname : (Node.group d' cs' l' s').head?.bind Node.placeholder?
        = (Node.group d cs l s).head?.bind Node.placeholder? := by
      obtain ⟨hn, hm⟩ | ⟨a, b, hn, hm, hab⟩ := hgroup.head?
      · rw [hn, hm]
      · rw [hn, hm]
        exact hab.placeholder?
    -- a group names its parameter by its head, and its defaults are what follows
    simp only [readParameter, hname]
    cases (Node.group d cs l s).head?.bind Node.placeholder? with
    | none => exact .none
    | some arg => exact .some ⟨rfl, .some hgroup.tail⟩

/-- Declaring parameters that are twins. -/
theorem Twin.declare (hL : L.Lawful) {t u : Template} (h : t.Twin L u) {n m : Node}
    (hn : L.Twin n m) : L.Agree (Twin L) (t.declare n) (u.declare m) := by
  have hread := twin_readParameter hn
  have hmalformed := hL.malformed n m hn
  unfold Template.declare
  generalize readParameter n = x at hread ⊢
  generalize readParameter m = y at hread ⊢
  cases hread with
  | none => exact .error (Report.like_atNode hn hmalformed)
  | @some a b hab =>
    obtain ⟨arg, ds⟩ := a
    obtain ⟨arg', es⟩ := b
    obtain ⟨hname, hds⟩ := hab
    obtain rfl : arg' = arg := hname
    have hdeclared := declared_as hL h hmalformed hds arg'
    -- what is wrong with a parameter is reported of the node that declares it
    show L.Agree (Twin L)
      ((t.declareAs (.malformedParameter n.text) arg' ds).mapError fun p => .atNode p n)
      ((u.declareAs (.malformedParameter m.text) arg' es).mapError fun p => .atNode p m)
    generalize t.declareAs (.malformedParameter n.text) arg' ds = x at hdeclared ⊢
    generalize u.declareAs (.malformedParameter m.text) arg' es = y at hdeclared ⊢
    cases hdeclared with
    | ok h => exact .ok h
    | error h => exact .error (Report.like_atNode hn h)

/-! ### Bodies -/

/-- No argument has to be passed over. -/
theorem afterExprs_zero (ns : List Node) : afterExprs 0 ns = ns := by
  cases ns <;> rfl

/-- What follows the first nodes that are no comments. -/
theorem like_afterExprs {ns ms : List Node} (h : Like L ns ms) (count : Nat) :
    Like L (afterExprs count ns) (afterExprs count ms) := by
  induction h generalizing count with
  | nil => cases count <;> exact .nil
  | dropped hdrop hrest ih =>
    -- a comment that only the first list has is passed over without being counted
    cases count with
    | zero =>
      rw [afterExprs_zero, afterExprs_zero]
      exact .dropped hdrop hrest
    | succ count => simpa [afterExprs, Node.isComment] using ih (count + 1)
  | comment hkeep htext hplace hrest ih =>
    cases count with
    | zero => exact .comment hkeep htext hplace hrest
    | succ count => simpa [afterExprs, Node.isComment] using ih (count + 1)
  | atom hvalue hquoted hplace hrest ih =>
    cases count with
    | zero => exact .atom hvalue hquoted hplace hrest
    | succ count => simpa [afterExprs, Node.isComment] using ih count
  | group hdelim hcs hplace hstop hrest _ ih =>
    cases count with
    | zero => exact .group hdelim hcs hplace hstop hrest
    | succ count => simpa [afterExprs, Node.isComment] using ih count

/-- The same names are declared. -/
theorem Twin.declares {t u : Template} (h : t.Twin L u) (arg : String) :
    u.declares arg = t.declares arg := by
  unfold Template.declares
  rw [h.length_positional, h.isSome_rest, h.named.any_key]

/-- The report of a placeholder that a template does not declare, if a node is one. -/
def unbound? (t : Template) (n : Node) : Option Report :=
  match n.placeholder? with
  | some arg => if t.declares arg then none else some (.atNode (.unboundPlaceholder arg) n)
  | none => none

/-- Placeholders that are not declared are reported alike. -/
theorem Twin.unbound_of_like (hL : L.Lawful) {t u : Template} (h : t.Twin L u) {ns ms : List Node}
    (hns : Like L ns ms) :
    Report.LikeAll L ((ns.flatMap Node.preorder).filterMap t.unbound?)
      ((ms.flatMap Node.preorder).filterMap u.unbound?) := by
  induction hns with
  | nil => exact .nil
  | dropped _ _ ih => exact ih
  | comment _ _ _ _ ih => exact ih
  | @atom a b ns ms hvalue hquoted hplace _ ih =>
    have htwin : L.Twin (.atom a) (.atom b) := .atom hvalue hquoted hplace
    -- only an atom can be a placeholder, so the reports are those of the atoms in order
    have hone : Report.LikeAll L (t.unbound? (.atom a)).toList (u.unbound? (.atom b)).toList := by
      unfold unbound?
      rw [htwin.placeholder?]
      split
      · rw [h.declares]
        split
        · exact .nil
        · exact .singleton (Report.like_atNode htwin (hL.problem _))
      · exact .nil
    have hpre : ∀ (x : Template) (c : Atom) (ks : List Node),
        ((Node.atom c :: ks).flatMap Node.preorder).filterMap x.unbound?
          = (x.unbound? (.atom c)).toList ++ (ks.flatMap Node.preorder).filterMap x.unbound? := by
      intro x c ks
      rw [List.flatMap_cons, List.filterMap_append]
      cases hx : x.unbound? (.atom c) <;> simp [Node.preorder, Node.walk, hx]
    rw [hpre, hpre]
    exact hone.append ih
  | @group d d' cs cs' l l' s s' ns ms _ _ _ _ _ ihcs ih =>
    have hpre : ∀ (x : Template) (e : Delim) (ks js : List Node) (k k' : Location),
        ((Node.group e ks k k' :: js).flatMap Node.preorder).filterMap x.unbound?
          = (ks.flatMap Node.preorder).filterMap x.unbound?
            ++ (js.flatMap Node.preorder).filterMap x.unbound? := by
      intro x e ks js k k'
      have hnone : x.unbound? (.group e ks k k') = none := rfl
      rw [List.flatMap_cons, List.filterMap_append, Node.preorder_group,
        List.filterMap_cons_none hnone]
    rw [hpre, hpre]
    exact ihcs.append ih

/-! ### Definitions -/

/-- **Reading a definition** gives templates and reports that are alike. -/
theorem twin_define (hL : L.Lawful) {n m : Node} (h : L.Twin n m) :
    L.Agree (fun x y => Twin L x.1 y.1 ∧ Report.LikeAll L x.2 y.2) (define n) (define m) := by
  have hmalformed : (Report.atNode .malformedTemplate n).Like L (.atNode .malformedTemplate m) :=
    Report.like_atNode h (hL.problem _)
  have hexprs := h.exprs
  -- a definition needs an atom, an atom and a group, and twins have these in the same places
  unfold define
  generalize n.exprs = ns at hexprs ⊢
  generalize m.exprs = ms at hexprs ⊢
  cases hexprs with
  | nil => exact .error hmalformed
  | cons hhead hexprs =>
    cases hexprs with
    | nil => cases hhead <;> exact .error hmalformed
    | cons hname hexprs =>
      cases hexprs with
      | nil => cases hhead <;> cases hname <;> exact .error hmalformed
      | cons hparams hrest =>
        cases hhead with
        | group => exact .error hmalformed
        | atom hhead _ _ =>
          cases hname with
          | group => exact .error hmalformed
          | atom hname _ _ =>
            cases hparams with
            | atom => exact .error hmalformed
            | group _ hparams _ _ =>
              simp only [hhead]
              split
              case isFalse => exact .error hmalformed
              case isTrue =>
                have hblank : Twin L { name := _, location := n.location }
                    { name := _, location := m.location } :=
                  ⟨hname.symm, .nil, .nil, .nil, .none⟩
                have hdeclared := Likeness.Agree.foldlM
                  (fun (t u : Template) n m (ht : t.Twin L u) hn => ht.declare hL hn)
                  hparams.exprs hblank
                refine hdeclared.bind fun t u ht => .ok ?_
                have hbody := like_afterExprs h.children 3
                have htu : Twin L { t with body := afterExprs 3 n.children }
                    { u with body := afterExprs 3 m.children } := { ht with body := hbody }
                exact ⟨htu, htu.unbound_of_like hL hbody⟩

end Template

/-! ### Collecting -/

namespace Stripper

/-- Whether two strippers have collected templates and reports that are alike. -/
structure Twin (L : Likeness) (s t : Stripper) : Prop where
  templates : List.Forall₂ (Template.Twin L) s.templates t.templates
  reports : Report.LikeAll L s.reports t.reports

/-- A template of a name has been collected from both documents or from neither. -/
theorem Twin.any_name {s t : Stripper} (h : s.Twin L t) (name : String) :
    t.templates.any (·.name = name) = s.templates.any (·.name = name) := by
  have htemplates := h.templates
  generalize s.templates = ts at htemplates ⊢
  generalize t.templates = us at htemplates ⊢
  induction htemplates with
  | nil => rfl
  | cons ht _ ih => simp [ht.name, ih]

/-- Collecting definitions that are twins. -/
theorem Twin.collect (hL : L.Lawful) {s t : Stripper} (h : s.Twin L t) {n m : Node}
    (hn : L.Twin n m) : (s.collect n).Twin L (t.collect m) := by
  have hdefine := Template.twin_define hL hn
  unfold Stripper.collect
  generalize Template.define n = x at hdefine ⊢
  generalize Template.define m = y at hdefine ⊢
  cases hdefine with
  | error hr => exact ⟨h.templates, h.reports.append (.singleton hr)⟩
  | ok hab =>
    obtain ⟨htemplate, hunbound⟩ := hab
    simp only [htemplate.name, h.any_name]
    split
    · refine ⟨h.templates, (h.reports.append hunbound).append (.singleton ?_)⟩
      exact Report.like_atNode hn (hL.problem _)
    · exact ⟨List.rel_append h.templates (.cons htemplate .nil), h.reports.append hunbound⟩

/-- **Collecting templates** does alike with documents that are alike. -/
theorem respects (hL : L.Lawful) : cutter.Respects L (Twin L) where
  cut _ _ _ hst := ⟨hst, rfl⟩
  paste _ _ _ _ hst hg := ⟨hst.collect hL hg, .none⟩
  pasted _ _ hst := hst

end Stripper

end Formwork
