import Formwork.Proofs.Provenance.Located

namespace Formwork

/-!
# Where expansions stand

An expansion has the nodes of its arguments where they were written, and the nodes of its body at
locations that start at the call; a built-in rule makes an atom that stands at the call itself. A
standing that goes from calls and bodies to bodies seen from calls is carried through collecting
templates and expanding.

* `Standing.CrossesTemplates` — what bodies seen from calls need.
* `Template.stands_define` — a template and the reports about it stand in its definition.
* `Stripper.carries`, `Expander.carries` — the two cutters carry the standing.
* `Options.stands_expandNodes`, `Options.located_expandNodes` — so do the stages after including, and
  they carry properties of locations.
-/

variable {Q : Standing}

/-! ### Results and reports in their place -/

namespace Report

/-- Whether a result is fit, or the report that there is in its place stands where it may. -/
def InPlace (Q : Standing) {α : Type} (Fit : α → Prop) : Except Report α → Prop
  | .ok a => Fit a
  | .error r => r.Stands Q

variable {α β : Type} {Fit : α → Prop} {Fit' : β → Prop}

/-- What is made of something in place is in place, -/
theorem InPlace.map {x : Except Report α} (h : InPlace Q Fit x) {f : α → β}
    (hf : ∀ a, Fit a → Fit' (f a)) : InPlace Q Fit' (x.map f) := by
  cases x with
  | error r => exact h
  | ok a => exact hf a h

/-- and so is what is read after it. -/
theorem InPlace.bind {x : Except Report α} (h : InPlace Q Fit x) {f : α → Except Report β}
    (hf : ∀ a, Fit a → InPlace Q Fit' (f a)) : InPlace Q Fit' (x >>= f) := by
  cases x with
  | error r => exact h
  | ok a => exact hf a h

/-- Steps that keep a state fit, one after another. -/
theorem InPlace.foldlM {f : α → Node → Except Report α} {ns : List Node}
    (hf : ∀ a, Fit a → ∀ n ∈ ns, InPlace Q Fit (f a n)) {a : α} (ha : Fit a) :
    InPlace Q Fit (ns.foldlM f a) := by
  induction ns generalizing a with
  | nil => exact ha
  | cons n ns ih =>
    rw [List.foldlM_cons]
    exact (hf a ha n List.mem_cons_self).bind fun b hb =>
      ih (fun c hc m hm => hf c hc m (List.mem_cons_of_mem n hm)) hb

end Report

open Report (InPlace)

/-! ### Templates -/

/-- Whether what is bound when a parameter is left out stands where it may. -/
def Fallback.Stands (Q : Standing) (f : Fallback) : Prop :=
  ∀ ns, f.bound? = some ns → Node.StandsAll Q ns

namespace Fallback

/-- A fallback stands where its defaults do. -/
theorem stands_ofDefaults? {defaults : Option (List Node)}
    (h : ∀ ns, defaults = some ns → Node.StandsAll Q ns) {f : Fallback}
    (hf : ofDefaults? defaults = some f) : f.Stands Q := by
  unfold ofDefaults? at hf
  split at hf <;> cases hf
  · exact fun _ hns => by cases hns
  · intro ns hns
    cases hns
    trivial
  case h_3 n =>
    intro ns hns
    cases hns
    exact h _ rfl

end Fallback

namespace Template

/-- Whether the body of a template and its defaults stand where they may. -/
structure Stands (Q : Standing) (t : Template) : Prop where
  body : Node.StandsAll Q t.body
  named : ∀ p ∈ t.named, p.2.Stands Q
  positional : ∀ f ∈ t.positional, f.Stands Q
  rest : ∀ ns, t.rest = some ns → Node.StandsAll Q ns

/-- A template with one parameter more stands where it may, if the defaults of the parameter do. -/
theorem Stands.declareAs {t t' : Template} (h : t.Stands Q) {malformed : Problem} {arg : String}
    {defaults : Option (List Node)} (hdefaults : ∀ ns, defaults = some ns → Node.StandsAll Q ns)
    (hdeclared : t.declareAs malformed arg defaults = .ok t') : t'.Stands Q := by
  unfold Template.declareAs declarePositional declareRest declareNamed at hdeclared
  -- a parameter is positional, the rest or named; each is stored in a field of its own
  split at hdeclared
  · split at hdeclared <;> try cases hdeclared
    split at hdeclared <;> try cases hdeclared
    split at hdeclared <;> cases hdeclared
    case h_2 f hf =>
      refine { h with positional := ?_ }
      rw [List.forall_mem_append, List.forall_mem_singleton]
      exact ⟨h.positional, Fallback.stands_ofDefaults? hdefaults hf⟩
  · split at hdeclared <;> try cases hdeclared
    split at hdeclared
    · split at hdeclared <;> cases hdeclared
      refine { h with rest := ?_ }
      rintro ns hns
      cases hns
      cases defaults with
      | none => trivial
      | some ds => exact hdefaults ds rfl
    · split at hdeclared <;> try cases hdeclared
      split at hdeclared <;> cases hdeclared
      case h_2 f hf =>
        refine { h with named := ?_ }
        rw [List.forall_mem_append, List.forall_mem_singleton]
        exact ⟨h.named, Fallback.stands_ofDefaults? hdefaults hf⟩

/-- The defaults of a parameter stand in it. -/
theorem stands_readParameter {param : Node} (h : param.Stands Q) {arg : String}
    {defaults : Option (List Node)} (hread : readParameter param = some (arg, defaults)) :
    ∀ ns, defaults = some ns → Node.StandsAll Q ns := by
  rintro ns rfl
  cases param with
  | atom a => simp [readParameter] at hread
  | comment c => simp [readParameter] at hread
  | group d cs l s =>
    obtain ⟨_, -, hpair⟩ := Option.map_eq_some_iff.mp hread
    cases hpair
    exact Node.standsAll_iff.mpr h.tail

/-- Declaring a parameter. -/
theorem Stands.declare {t : Template} (h : t.Stands Q) {param : Node} (hparam : param.Stands Q) :
    InPlace Q (Stands Q) (t.declare param) := by
  have hdeclared : ∀ t' arg defaults, readParameter param = some (arg, defaults) →
      t.declareAs (.malformedParameter param.text) arg defaults = .ok t' → t'.Stands Q :=
    fun t' arg defaults hread => h.declareAs (stands_readParameter hparam hread)
  unfold Template.declare
  cases hread : readParameter param with
  | none => exact Report.stands_atNode hparam _
  | some p =>
    obtain ⟨arg, defaults⟩ := p
    cases hp : t.declareAs (.malformedParameter param.text) arg defaults with
    | error problem =>
      simp only [hp]
      exact Report.stands_atNode hparam _
    | ok t' =>
      simp only [hp]
      exact hdeclared t' arg defaults hread hp

theorem afterExprs_subset (count : Nat) (ns : List Node) : afterExprs count ns ⊆ ns := by
  fun_induction afterExprs count ns with
  | case1 ns => exact List.Subset.refl ns
  | case2 => exact List.nil_subset _
  | case3 count n ns _ ih => exact List.subset_cons_of_subset n ih
  | case4 count n ns _ ih => exact List.subset_cons_of_subset n ih

/-- The placeholders that are not declared stand in the body. -/
theorem Stands.unbound {t : Template} (h : t.Stands Q) : Report.StandsAll Q t.unbound := by
  intro r hr
  obtain ⟨n, hn, hreport⟩ := List.mem_filterMap.mp hr
  obtain ⟨m, hm, hnm⟩ := List.mem_flatMap.mp hn
  have hstands := (Node.standsAll_iff.mp h.body m hm).of_mem_preorder n hnm
  split at hreport
  case h_2 => cases hreport
  case h_1 =>
    split at hreport <;> cases hreport
    exact Report.stands_atNode hstands _

/-- **A template stands in its definition**, and so do the reports about it. -/
theorem stands_define {definition : Node} (h : definition.Stands Q) :
    InPlace Q (fun r => r.1.Stands Q ∧ Report.StandsAll Q r.2) (define definition) := by
  unfold define
  split
  case h_2 => exact Report.stands_atNode h _
  case h_1 head name d params l s rest hexprs =>
    split
    case isFalse => exact Report.stands_atNode h _
    case isTrue =>
      have hparams : (Node.group d params l s).Stands Q := h.exprs _ (by simp [hexprs])
      -- the template starts out with no parameter, so all it holds was declared or is its body
      have hblank : ({ name := name.value, location := definition.location } : Template).Stands Q :=
        ⟨trivial, by simp, by simp, by simp⟩
      have hbody : Node.StandsAll Q (afterExprs 3 definition.children) :=
        Node.standsAll_iff.mpr fun n hn => h.children n (afterExprs_subset 3 _ hn)
      have hdeclare : ∀ t : Template, t.Stands Q → ∀ n ∈ params.filter fun n => !n.isComment,
          InPlace Q (Stands Q) (t.declare n) :=
        fun t ht n hn => ht.declare (hparams.children n (List.mem_of_mem_filter hn))
      refine (InPlace.foldlM hdeclare hblank).bind fun declared hd => ?_
      have ht : ({ declared with body := afterExprs 3 definition.children } : Template).Stands Q :=
        { hd with body := hbody }
      exact ⟨ht, ht.unbound⟩

end Template

/-! ### Collecting templates -/

namespace Stripper

/-- Whether the templates and the reports collected so far stand where they may. -/
def Stands (Q : Standing) (s : Stripper) : Prop :=
  (∀ t ∈ s.templates, t.Stands Q) ∧ Report.StandsAll Q s.reports

/-- A stripper that collects a definition keeps what stands. -/
theorem Stands.collect {s : Stripper} (h : s.Stands Q) {definition : Node}
    (hd : definition.Stands Q) : (s.collect definition).Stands Q := by
  have hdefine := Template.stands_define hd
  unfold Stripper.collect
  split
  case h_1 report heq =>
    rw [heq] at hdefine
    exact ⟨h.1, h.2.append (.singleton hdefine)⟩
  case h_2 t unbound heq =>
    rw [heq] at hdefine
    obtain ⟨ht, hunbound⟩ := hdefine
    split
    · exact ⟨h.1, (h.2.append hunbound).append (.singleton (Report.stands_atNode hd _))⟩
    · refine ⟨?_, h.2.append hunbound⟩
      rw [List.forall_mem_append, List.forall_mem_singleton]
      exact ⟨h.1, ht⟩

/-- Collecting templates carries a standing. -/
theorem carries (Q : Standing) : cutter.Upholds Q (Stands Q) where
  cut s head hs := hs
  paste s g hs _ hg := ⟨hs.collect hg, fun es hes => by cases hes⟩
  pasted s hs := hs

end Stripper

/-! ### Invocations -/

namespace Invocation

/-- Whether an invocation and its arguments stand where they may. -/
structure Stands (Q : Standing) (inv : Invocation) : Prop where
  node : inv.node.Stands Q
  call : Q.group inv.node.location
  arguments : ∀ a ∈ inv.arguments, a.2.Stands Q
  remainder : ∀ n ∈ inv.remainder, n.Stands Q

/-- The positional arguments stand where the nodes do, -/
theorem stands_readRemainder {ns : List Node} (h : ∀ n ∈ ns, n.Stands Q) :
    InPlace Q (fun ms => ∀ n ∈ ms, n.Stands Q) (readRemainder ns) := by
  unfold readRemainder
  split
  case h_1 key n hkey =>
    obtain ⟨m, hm, hfound⟩ := List.exists_of_findSome?_eq_some hkey
    obtain ⟨_, -, hpair⟩ := Option.map_eq_some_iff.mp hfound
    cases hpair
    exact Report.stands_atNode (h _ hm) _
  case h_2 => exact h

/-- and so do the keyword arguments. -/
theorem stands_readArguments {seen : List (String × Node)} {ns : List Node}
    (hseen : ∀ a ∈ seen, a.2.Stands Q) (h : ∀ n ∈ ns, n.Stands Q) :
    InPlace Q (fun r => (∀ a ∈ r.1, a.2.Stands Q) ∧ ∀ n ∈ r.2, n.Stands Q)
      (readArguments seen ns) := by
  fun_induction readArguments seen ns with
  | case1 seen => exact ⟨hseen, by simp⟩
  | case2 seen n ns hkey => exact (stands_readRemainder h).map fun ms hms => ⟨hseen, hms⟩
  | case3 seen n key hkey => exact Report.stands_atNode (h n (by simp)) _
  | case4 seen n key value ns hkey hdup => exact Report.stands_atNode (h value (by simp)) _
  | case5 seen n key value ns hkey hdup ih =>
    refine ih ?_ fun m hm => h m (by simp [hm])
    rw [List.forall_mem_append, List.forall_mem_singleton]
    exact ⟨hseen, h value (by simp)⟩

/-- **An invocation stands in its node**, and so does the report of why there is none. -/
theorem stands_ofNode {n : Node} (h : n.Stands Q) : InPlace Q (Stands Q) (ofNode n) := by
  unfold ofNode
  split
  case isTrue => exact Report.stands_atNode h _
  case isFalse hgroup =>
    have hcall : Q.group n.location := h.group (by simpa using hgroup)
    split
    case h_1 => exact Report.stands_atNode h _
    case h_2 head hhead =>
      split
      case h_1 => exact Report.stands_atNode (h.exprs head (List.mem_of_head? hhead)) _
      case h_2 a ha =>
        exact (stands_readArguments (by simp) h.tail).map fun r hr => ⟨h, hcall, hr.1, hr.2⟩

/-- The value of a keyword argument is one of the arguments. -/
theorem Stands.argument? {inv : Invocation} (h : inv.Stands Q) {key : String} {n : Node}
    (hn : inv.argument? key = some n) : n.Stands Q := by
  obtain ⟨a, ha, rfl⟩ := Option.map_eq_some_iff.mp hn
  exact h.arguments a (List.mem_of_find?_eq_some ha)

end Invocation

/-- Everything that is wrong with the arguments of an invocation is reported where it stands. -/
theorem Shape.stands_violations (s : Shape) {inv : Invocation} (h : inv.Stands Q) :
    Report.StandsAll Q (s.violations inv) := by
  -- the four kinds of violation, in the order they are reported
  refine ((Report.StandsAll.append ?_ ?_).append ?_).append ?_
  · intro r hr
    obtain ⟨key, -, rfl⟩ := List.mem_map.mp hr
    exact Report.stands_atNode h.node _
  · intro r hr
    obtain ⟨a, ha, rfl⟩ := List.mem_map.mp hr
    exact Report.stands_atNode (h.arguments a (List.mem_of_mem_filter ha)) _
  · unfold tooFew
    split
    · exact .singleton (Report.stands_atNode h.node _)
    · exact .nil
  · unfold tooMany
    split
    · exact .nil
    · intro r hr
      obtain ⟨n, hn, rfl⟩ := Option.map_eq_some_iff.mp (Option.mem_toList.mp hr)
      have hmem := List.mem_of_mem_drop (List.mem_of_head? hn)
      exact Report.stands_atNode (h.remainder n hmem) _

/-! ### Expansions -/

/-- Whether a standing goes from a call and a body to the body seen from the call. -/
structure Standing.CrossesTemplates (Q : Standing) : Prop where
  atom : ∀ {call v l}, Q.group call → Q.atom v l → Q.atom v (call.via .template l)
  group : ∀ {call l}, Q.group call → Q.group l → Q.group (call.via .template l)
  place : ∀ {call l}, Q.group call → Q.place l → Q.place (call.via .template l)

namespace Substitution

variable {s : Substitution}

/-- What a placeholder stands for is one of the values. -/
theorem stands_bound? (h : ∀ b ∈ s.bindings, Node.StandsAll Q b.2) {value : String}
    {ns : List Node} (hns : s.bound? value = some ns) : Node.StandsAll Q ns := by
  obtain ⟨b, hb, rfl⟩ := mem_bindings_of_bound? hns
  exact h b hb

mutual

/-- A node of the body, filled in. -/
theorem stands_nodes (hQ : Q.CrossesTemplates) (hcall : Q.group s.callSite)
    (hbindings : ∀ b ∈ s.bindings, Node.StandsAll Q b.2) :
    ∀ n : Node, n.Stands Q → Node.StandsAll Q (s.nodes n)
  | .atom a, h => by
    rw [nodes]
    split
    case h_1 ns hns => exact stands_bound? hbindings hns
    case h_2 => exact ⟨hQ.atom hcall h, trivial⟩
  | .comment c, h => ⟨hQ.place hcall h, trivial⟩
  | .group d cs l stop, h =>
    ⟨⟨hQ.group hcall h.1, hQ.place hcall h.2.1, stands_nodesAll hQ hcall hbindings cs h.2.2⟩,
      trivial⟩

/-- Nodes of the body, filled in. -/
theorem stands_nodesAll (hQ : Q.CrossesTemplates) (hcall : Q.group s.callSite)
    (hbindings : ∀ b ∈ s.bindings, Node.StandsAll Q b.2) :
    ∀ ns : List Node, Node.StandsAll Q ns → Node.StandsAll Q (s.nodesAll ns)
  | [], _ => trivial
  | n :: ns, h => Node.standsAll_append.mpr
      ⟨stands_nodes hQ hcall hbindings n h.1, stands_nodesAll hQ hcall hbindings ns h.2⟩

end

end Substitution

/-- What is given for a parameter, or its fallback. -/
theorem Fallback.Stands.or_bound? {f : Fallback} (h : f.Stands Q) {given : Option Node}
    (hgiven : ∀ n, given = some n → n.Stands Q) {ns : List Node}
    (hns : (given.map fun n => [n]).or f.bound? = some ns) : Node.StandsAll Q ns := by
  cases given with
  | none => exact h ns hns
  | some n =>
    cases hns
    exact ⟨hgiven n rfl, trivial⟩

namespace Template

variable {t : Template} {inv : Invocation}

/-- What is bound to keyword parameters was given, or is a default. -/
theorem Stands.bindNamed (h : t.Stands Q) {arguments : List (String × Node)}
    (harguments : ∀ a ∈ arguments, a.2.Stands Q) :
    ∀ b ∈ t.bindNamed arguments, Node.StandsAll Q b.2 := by
  intro b hb
  obtain ⟨⟨name, f⟩, hp, hb⟩ := List.mem_filterMap.mp hb
  obtain ⟨ns, hns, rfl⟩ := Option.map_eq_some_iff.mp hb
  exact (h.named _ hp).or_bound? (fun n hn => harguments _ (mem_of_lookup hn)) hns

/-- What the positional parameters take. -/
theorem stands_bindPositional (number : Nat) {fs : List Fallback} {ns : List Node}
    (hfs : ∀ f ∈ fs, f.Stands Q) (hns : ∀ n ∈ ns, n.Stands Q) :
    ∀ b ∈ bindPositional number fs ns, Node.StandsAll Q b.2 := by
  intro b hb
  fun_induction bindPositional number fs ns with
  | case1 => cases hb
  | case2 number f fs ns ih =>
    rw [List.forall_mem_cons] at hfs
    obtain hb | hb := List.mem_append.mp hb
    · obtain ⟨ms, hms, rfl⟩ := List.mem_map.mp hb
      exact hfs.1.or_bound? (fun n hn => hns n (List.mem_of_head? hn)) (Option.mem_toList.mp hms)
    · exact ih hfs.2 (fun n hn => hns n (List.mem_of_mem_tail hn)) hb

/-- What the rest parameter takes. -/
theorem Stands.bindRest (h : t.Stands Q) {ns : List Node} (hns : ∀ n ∈ ns, n.Stands Q) :
    ∀ b ∈ t.bindRest ns, Node.StandsAll Q b.2 := by
  intro b hb
  unfold Template.bindRest at hb
  split at hb
  case h_1 => cases hb
  case h_2 defaults hdefaults =>
    obtain rfl := List.mem_singleton.mp hb
    show Node.StandsAll Q (if _ then _ else _)
    split
    · exact h.rest defaults hdefaults
    · exact Node.standsAll_iff.mpr fun n hn => hns n (List.mem_of_mem_drop hn)

/-- What is bound to the parameters comes from the arguments and the defaults. -/
theorem Stands.bind (h : t.Stands Q) (hinv : inv.Stands Q) :
    ∀ b ∈ t.bind inv, Node.StandsAll Q b.2 := by
  unfold Template.bind
  rw [List.forall_mem_append, List.forall_mem_append]
  exact ⟨⟨h.bindNamed hinv.arguments, stands_bindPositional 1 h.positional hinv.remainder⟩,
    h.bindRest hinv.remainder⟩

end Template

/-- Whether what a rule puts in the place of a call may stand there. A built-in rule makes an atom
    there. -/
def Rule.Stands (Q : Standing) : Rule → Prop
  | .template t => t.Stands Q
  | _ => ∀ v l, Q.group l → Q.atom v l

theorem stands_unusable {n : Node} (h : n.Stands Q) (name message : String) :
    (unusable name message n).Stands Q :=
  Report.stands_atNode h _

/-- The joined atom stands at the call, and reports at what cannot be joined. -/
theorem Concat.stands_transform (hmade : ∀ v l, Q.group l → Q.atom v l) {inv : Invocation}
    (h : inv.Stands Q) :
    (transform inv).1.Stands Q ∧ Report.StandsAll Q (transform inv).2 := by
  have hunjoinable : Report.StandsAll Q (unjoinable inv) := by
    intro r hr
    obtain ⟨n, hn, rfl⟩ := List.mem_map.mp hr
    exact stands_unusable (h.remainder n (List.mem_of_mem_filter hn)) _ _
  have hseparator : Report.StandsAll Q (separator inv).2 := by
    unfold separator
    split
    case h_1 => exact .nil
    case h_2 => exact .nil
    case h_3 n _ hn => exact .singleton (stands_unusable (h.argument? hn) _ _)
  exact ⟨hmade _ _ h.call, hunjoinable.append hseparator⟩

/-- The made name stands at the call, and a report at what is no stem. -/
theorem UniqueName.stands_transform (hmade : ∀ v l, Q.group l → Q.atom v l) {inv : Invocation}
    (h : inv.Stands Q) (number : Nat) :
    (transform number inv).1.Stands Q ∧ Report.StandsAll Q (transform number inv).2 := by
  have hstem : Report.StandsAll Q (stem inv).2 := by
    have hremainder := h.remainder
    unfold stem
    split
    case h_1 => exact .nil
    case h_2 => exact .nil
    case h_3 n ns _ hns =>
      rw [hns, List.forall_mem_cons] at hremainder
      exact .singleton (stands_unusable hremainder.1 _ _)
  exact ⟨hmade _ _ h.call, hstem⟩

/-- **An expansion stands where its rule and its arguments do**, and so do the reports about it. -/
theorem Rule.Stands.expand (hQ : Q.CrossesTemplates) {r : Rule} (h : r.Stands Q)
    {inv : Invocation} (hinv : inv.Stands Q) (number : Nat) :
    Node.StandsAll Q (Builder.build (r.expand number inv).events) ∧
      Report.StandsAll Q (r.expand number inv).reports := by
  -- the built-in rules make one node each
  have hone : ∀ n : Node, n.Stands Q → Node.StandsAll Q (Builder.build n.events) := by
    intro n hn
    rw [Builder.build_of_replays (Event.replays_events n), Node.standsAll_plainAll]
    exact ⟨hn, trivial⟩
  cases r with
  | concat =>
    obtain ⟨hnode, hreports⟩ := Concat.stands_transform h hinv
    exact ⟨hone _ hnode, hreports⟩
  | uniqueName =>
    obtain ⟨hnode, hreports⟩ := UniqueName.stands_transform h hinv number
    exact ⟨hone _ hnode, hreports⟩
  | template t =>
    refine ⟨?_, .nil⟩
    show Node.StandsAll Q (Builder.build (t.transform inv).events)
    rw [Builder.build_of_replays (Substitution.replays_events (t.transform inv)),
      Node.standsAll_plainAll]
    exact Substitution.stands_nodesAll hQ hinv.call (Template.Stands.bind h hinv) _
      (Template.Stands.body h)

/-! ### Expanding -/

namespace Expander

/-- Whether the rules and the reports of an expander stand where they may. -/
def Stands (Q : Standing) (x : Expander) : Prop :=
  (∀ r ∈ x.rules, r.Stands Q) ∧ Report.StandsAll Q x.reports

/-- Expanding carries a standing that goes into bodies from calls. -/
theorem carries (hQ : Q.CrossesTemplates) : cutter.Upholds Q (Stands Q) where
  cut x head hx := hx
  pasted x hx := hx
  paste x g hx _ hg := by
    have hof := Invocation.stands_ofNode hg
    have hpaste : cutter.paste x (Builder.holding g) = x.replace g := rfl
    rw [hpaste]
    unfold replace
    -- the form is no call, or a call of no rule, or a call of a rule
    split
    case h_1 report heq =>
      rw [heq] at hof
      exact ⟨⟨hx.1, hx.2.append (.singleton hof)⟩, fun es hes => by cases hes⟩
    case h_2 inv heq =>
      rw [heq] at hof
      split
      case h_1 => exact ⟨hx, fun es hes => by cases hes⟩
      case h_2 r hr =>
        have hrule : r.Stands Q := hx.1 r (List.mem_of_find?_eq_some hr)
        obtain ⟨hnodes, hreports⟩ := hrule.expand hQ hof (x.made + 1)
        -- the rule takes the call, or it is refused with a report at a node of the call
        unfold invoke
        split
        case h_1 =>
          refine ⟨⟨hx.1, hx.2.append hreports⟩, fun es hes => ?_⟩
          cases hes
          exact hnodes
        case h_2 =>
          refine ⟨⟨hx.1, hx.2.append ?_⟩, fun es hes => by cases hes⟩
          unfold refusal
          split
          · exact .singleton (Report.stands_atNode hof.node _)
          · split
            · exact .singleton (Report.stands_atNode hof.node _)
            · exact r.shape.stands_violations hof

/-- With rules that stand, an expander still does. -/
theorem Stands.registerAll {x : Expander} (h : x.Stands Q) {rs : List Rule}
    (hrs : ∀ r ∈ rs, r.Stands Q) : (x.registerAll rs).Stands Q := by
  induction rs generalizing x with
  | nil => exact h
  | cons r rs ih =>
    rw [List.forall_mem_cons] at hrs
    refine ih (x := x.register r) ⟨?_, h.2⟩ hrs.2
    show ∀ r' ∈ x.rules.filter (·.name ≠ r.name) ++ [r], r'.Stands Q
    rw [List.forall_mem_append, List.forall_mem_singleton]
    exact ⟨fun r' hr' => h.1 r' (List.mem_of_mem_filter hr'), hrs.1⟩

end Expander

/-- **The stages after including carry a standing** that goes into bodies from calls, and allows what
    the built-in rules make if there are any. -/
theorem Options.stands_expandNodes (hQ : Q.CrossesTemplates) (o : Options)
    (hmade : o.builtinRules = true → ∀ v l, Q.group l → Q.atom v l) {ns : List Node}
    (h : Node.StandsAll Q ns) :
    Node.StandsAll Q (o.expandNodes ns).1 ∧ Report.StandsAll Q (o.expandNodes ns).2 := by
  -- expanding is two cutouts, so what stands is carried through one after the other
  obtain ⟨s, ks, x, ms, hstrip, hexpand, heq⟩ := o.exists_rewrites ns
  have hns : Node.StandsAll Q (Node.plainAll (Node.withComments o.keepComments ns)) :=
    (Node.standsAll_plainAll _).mpr (h.withComments _)
  obtain ⟨hs, hks⟩ := (Stripper.carries Q).rewrite 0 _ _ _ ⟨by simp, .nil⟩ hns hstrip
  -- the rules are the built-in ones and the templates that were stripped
  have hx : (o.expander s.templates).Stands Q := by
    refine Expander.Stands.registerAll ⟨by simp, .nil⟩ fun r hr => ?_
    obtain hr | hr := List.mem_append.mp hr
    · split at hr
      case isFalse => cases hr
      case isTrue hbuiltin =>
        rw [Rule.builtins] at hr
        simp only [List.mem_cons, List.not_mem_nil, or_false] at hr
        obtain rfl | rfl := hr <;> exact hmade hbuiltin
    · obtain ⟨t, ht, rfl⟩ := List.mem_map.mp hr
      exact hs.1 t ht
  obtain ⟨hx', hms⟩ := (Expander.carries hQ).rewrite _ _ _ _ hx hks hexpand
  rw [heq]
  exact ⟨hms, hs.2.append hx'.2⟩

/-! ### Properties of locations -/

/-- Whether a property of locations goes from a call and a body to the body seen from the call. -/
def CrossesTemplates (P : Location → Prop) : Prop :=
  ∀ l m, P l → P m → P (l.via .template m)

/-- **The stages after including carry a property of locations** that goes into bodies from calls. -/
theorem Options.located_expandNodes {P : Location → Prop} (hP : CrossesTemplates P) (o : Options)
    {ns : List Node} (h : Node.LocatedAll P ns) :
    Node.LocatedAll P (o.expandNodes ns).1 ∧ Report.LocatedAll P (o.expandNodes ns).2 := by
  have hcrosses : (Standing.uniform P).CrossesTemplates := ⟨hP _ _, hP _ _, hP _ _⟩
  rw [← Node.standsAll_uniform] at h
  rw [← Node.standsAll_uniform, ← Report.standsAll_uniform]
  exact o.stands_expandNodes hcrosses (fun _ _ _ hl => hl) h

end Formwork
