import Formwork.Proofs.Reading
import Formwork.Proofs.Template.Declaring

namespace Formwork.Template

/-!
# The grammar of definitions

A definition is a group of the keyword, a name, a group of parameters that may be declared together,
and a body. The reader accepts the groups of this form and nothing else.

* `Template.Frame` — a node that has the form of a definition, whatever its parameters.
* `Template.Draft` — what a definition says; `Draft.template` — the template it defines.
* `Template.Fault` — what can be wrong with a node that is to be a definition, and what is reported.
* `Template.Shaped` — what the parameters come to for a caller.
* `Template.define_grammar` — a node is read exactly when it is a definition. Otherwise there is one
  report.
-/

open Parameter

/-! ### The form of a definition -/

/-- Whether a node has the form of a definition: a group of the keyword, a name, a group of
    parameters, and the body. Comments may stand between them; in the body they stay. -/
inductive Frame : Node → String → List Node → List Node → Prop where
  | intro {d e : Delim} {front cs body : List Node} {l stop l' stop' : Location} {head name : Atom}
      (hfront : front.filter (fun n => !n.isComment) = [.atom head, .atom name])
      (hhead : head.value = keyword) :
      Frame (.group d (front ++ .group e cs l' stop' :: body) l stop) name.value
        (cs.filter fun n => !n.isComment) body

/-- What follows the nodes that are not comments does so whatever stands between them. -/
theorem afterExprs_append {front body : List Node} {n : Node} {k : Nat}
    (hfront : (front.filter fun m => !m.isComment).length = k) (hn : n.isComment = false) :
    afterExprs (k + 1) (front ++ n :: body) = body := by
  induction front generalizing k with
  | nil =>
    obtain rfl : k = 0 := hfront.symm
    rw [List.nil_append, afterExprs, if_neg (by simp [hn]), afterExprs]
  | cons m front ih =>
    rw [List.cons_append, afterExprs]
    cases hm : m.isComment with
    | true =>
      rw [List.filter_cons_of_neg (by simp [hm])] at hfront
      exact ih hfront
    | false =>
      rw [List.filter_cons_of_pos (by simp [hm]), List.length_cons] at hfront
      subst hfront
      exact ih rfl

/-- **A node of the form of a definition** is read by declaring its parameters. -/
theorem Frame.define_eq {n : Node} {name : String} {params body : List Node}
    (h : Frame n name params body) :
    define n = (params.foldlM declare { name, location := n.location }).map fun t =>
      ({ t with body }, unbound { t with body }) := by
  cases h with
  | @intro d e front cs _ l stop l' stop' head name hfront hhead =>
    have hexprs : (Node.group d (front ++ .group e cs l' stop' :: body) l stop).exprs =
        .atom head :: .atom name :: .group e cs l' stop' :: body.filter fun n => !n.isComment := by
      rw [Node.exprs, Node.children, List.filter_append, hfront, List.filter_cons_of_pos rfl]
      rfl
    have hbody : afterExprs 3 (front ++ .group e cs l' stop' :: body) = body :=
      afterExprs_append (congrArg List.length hfront) rfl
    simp only [define, hexprs, if_pos hhead, Node.children, hbody]
    cases List.foldlM declare _ _ with
    | error => rfl
    | ok => rfl

/-- A node has the form of a definition, or it is reported not to have it. -/
theorem exists_frame_or (n : Node) :
    (∃ name params body, Frame n name params body) ∨
      define n = .error (.atNode .malformedTemplate n) := by
  unfold define
  split
  case h_1 head name e cs l' stop' rest hexprs =>
    split
    case isTrue hhead =>
      refine .inl ?_
      cases n with
      | atom => cases hexprs
      | comment => cases hexprs
      | group d children l stop =>
        have hchildren : children.filter (fun n => !n.isComment) =
            [.atom head, .atom name] ++ .group e cs l' stop' :: rest := hexprs
        -- comments may stand anywhere, so the group is cut in front of the list of parameters
        obtain ⟨front, back, rfl, hfront, hback⟩ := List.filter_eq_append_iff.mp hchildren
        obtain ⟨comments, body, rfl, hcomments, -, -⟩ := List.filter_eq_cons_iff.mp hback
        have hbefore : (front ++ comments).filter (fun n => !n.isComment) =
            [.atom head, .atom name] := by
          rw [List.filter_append, hfront, List.filter_eq_nil_iff.mpr hcomments, List.append_nil]
        rw [← List.append_assoc]
        exact ⟨_, _, _, .intro hbefore hhead⟩
    case isFalse => exact .inr rfl
  case h_2 => exact .inr rfl

/-! ### What a definition says -/

/-- What a definition says: a name, parameters that may be declared together, and a body. -/
structure Draft where
  name : String
  parameters : List Parameter
  body : List Node
  valid : ValidAll parameters

namespace Draft

/-- Whether a definition is written as a node. -/
def Of (d : Draft) (n : Node) : Prop :=
  ∃ params, Frame n d.name params d.body ∧ List.Forall₂ Written d.parameters params

/-- The template that a definition at a place defines. -/
def template (d : Draft) (l : Location) : Template :=
  withParameters { name := d.name, location := l, body := d.body } d.parameters

/-- Reports of the placeholders in the body that name no parameter. -/
def undeclared (d : Draft) : List Report :=
  (d.body.flatMap Node.preorder).filterMap fun n =>
    match n.placeholder? with
    | some name =>
      if name ∈ d.parameters.map Parameter.name then none
      else some (.atNode (.unboundPlaceholder name) n)
    | none => none

end Draft

/-- **The declared names** are those of the parameters. -/
theorem declares_withParameters_iff (t : Template) {ps : List Parameter} (h : ValidAll ps)
    (arg : String) :
    (t.withParameters ps).declares arg = true ↔ arg ∈ ps.map Parameter.name := by
  rw [List.mem_map]
  unfold declares
  split
  case h_1 k hplain =>
    obtain ⟨hnumber, hcanonical⟩ := plainCount?_eq_some_iff.mp hplain
    rw [Bool.and_eq_true, decide_eq_true_eq, decide_eq_true_eq, length_positional_withParameters,
      ← h.mem_numbers_iff]
    refine exists_congr fun p => and_congr_right fun hp => ⟨fun hk => ?_, ?_⟩
    · rw [← h.canonical p hp k hk, hcanonical]
    · rintro rfl
      exact hnumber
  case h_2 hplain =>
    split
    case isTrue hrest => rw [isSome_rest_withParameters, hrest]
    case isFalse hrest =>
      refine any_named_withParameters fun q hq hname => ?_
      -- a numeral that is not plain names no parameter
      have hnumber : q.number? = none := by
        rw [Option.eq_none_iff_forall_ne_some]
        intro k hk
        have hplain' := plainCount?_eq_some_iff.mpr ⟨hk, h.canonical q hq k hk⟩
        rw [hname, hplain] at hplain'
        cases hplain'
      exact isKeyword_iff.mpr
        ⟨isPositional_eq_false_iff.mpr hnumber, decide_eq_false (hname ▸ hrest)⟩

/-- **The reports of a template** are those of the placeholders that name no parameter. -/
theorem Draft.unbound_template (d : Draft) (l : Location) :
    (d.template l).unbound = d.undeclared := by
  unfold unbound undeclared
  refine List.filterMap_congr fun n _ => ?_
  cases n.placeholder? with
  | none => rfl
  | some arg =>
    have hdeclares :
        (d.template l).declares arg = decide (arg ∈ d.parameters.map Parameter.name) := by
      rw [Bool.eq_iff_iff, decide_eq_true_eq]
      exact declares_withParameters_iff _ d.valid arg
    simp only [hdeclares, decide_eq_true_eq]

/-! ### Reading a definition -/

/-- What can be wrong with a node that is to be a definition, and what is reported of it. -/
inductive Fault (n : Node) : Report → Prop where
  /-- It does not have the form of one. -/
  | malformed (hnone : ∀ name params body, ¬Frame n name params body) :
      Fault n (.atNode .malformedTemplate n)
  /-- A parameter does not join those before it. -/
  | parameter {name : String} {params body : List Node} {report : Report}
      (hframe : Frame n name params body) (hwrong : Misdeclared params report) : Fault n report

/-- **A definition is read** as what it says. -/
theorem Draft.Of.define_eq {d : Draft} {n : Node} (h : d.Of n) :
    define n = .ok (d.template n.location, d.undeclared) := by
  obtain ⟨params, hframe, hwritten⟩ := h
  let blank : Template := { name := d.name, location := n.location }
  have hdeclared : params.foldlM declare blank = .ok (blank.withParameters d.parameters) :=
    foldlM_declare_eq_ok (t := blank) hwritten d.valid
  rw [hframe.define_eq, hdeclared, ← d.unbound_template n.location]
  rfl

/-- **A node is written as a definition**, or what is wrong with it is reported. -/
theorem define_cases (n : Node) :
    (∃ d : Draft, d.Of n) ∨ ∃ report, Fault n report ∧ define n = .error report := by
  by_cases hframe : ∃ name params body, Frame n name params body
  case neg =>
    push Not at hframe
    exact .inr ⟨_, .malformed hframe, (exists_frame_or n).resolve_left (by simpa using hframe)⟩
  obtain ⟨name, params, body, hframe⟩ := hframe
  rcases foldlM_declare_cases { name, location := n.location } params with
    ⟨ps, hwritten, hvalid, -⟩ | ⟨report, hwrong, herror⟩
  · exact .inl ⟨{ name, parameters := ps, body, valid := hvalid }, params, hframe, hwritten⟩
  · refine .inr ⟨report, .parameter hframe hwrong, ?_⟩
    have hdeclared : params.foldlM declare { name, location := n.location } = .error report := herror
    rw [hframe.define_eq, hdeclared]
    rfl

/-- **Reading definitions** follows their grammar. -/
theorem define_follows (n : Node) :
    Follows (fun read => ∃ d : Draft, d.Of n ∧ read = (d.template n.location, d.undeclared)) (Fault n)
      (define n) := by
  refine .of_cases ?_ ((define_cases n).imp_left fun ⟨d, hd⟩ => ⟨_, d, hd, rfl⟩)
  rintro _ ⟨d, hd, rfl⟩
  exact hd.define_eq

/-! ### What the parameters come to for a caller -/

/-- A list in which whatever has a property comes first is split by it. -/
theorem filter_append_filter_of_pairwise {α : Type} {f : α → Bool} {l : List α}
    (h : l.Pairwise fun a b => f b = true → f a = true) :
    l.filter f ++ l.filter (fun a => !f a) = l := by
  induction h with
  | nil => rfl
  | @cons a l hfirst _ ih =>
    cases ha : f a with
    | true =>
      rw [List.filter_cons_of_pos ha, List.filter_cons_of_neg (by simp [ha]), List.cons_append, ih]
    | false =>
      -- nothing after it has the property either
      have hnone : ∀ b ∈ l, ¬f b = true := by
        intro b hb hfb
        exact Bool.noConfusion (ha.symm.trans (hfirst b hb hfb))
      have hempty : l.filter f = [] := List.filter_eq_nil_iff.mpr hnone
      rw [hempty, List.nil_append] at ih
      rw [List.filter_cons_of_neg (by simp [ha]), hempty, List.nil_append,
        List.filter_cons_of_pos (by simp [ha]), ih]

/-- What a template with a list of parameters asks of a caller. -/
structure Shaped (t : Template) (ps : List Parameter) : Prop where
  /-- The positional parameters that have to be given come before those that have not. -/
  positional : ∃ optional : List Fallback,
    t.positional =
      List.replicate (ps.countP fun p => p.isMandatory && p.isPositional) .required ++ optional ∧
    ∀ f ∈ optional, f.isRequired = false
  /-- As many positional arguments have to be given, -/
  min : t.shape.min = ps.countP fun p => p.isMandatory && p.isPositional
  /-- and as many may be given as there are positional parameters, or any number with the rest. -/
  max : t.shape.max = if ps.any isRest then none else some (ps.countP isPositional)
  /-- The keyword arguments are those of the keyword parameters, -/
  allowed : t.shape.allowed = (ps.filter isKeyword).map Parameter.name
  /-- of which those written alone have to be given. -/
  required : t.shape.required = (ps.filter fun p => p.isMandatory && p.isKeyword).map Parameter.name
  sublist : t.shape.required.Sublist t.shape.allowed

/-- **The shape of a template** that declares a list of parameters. -/
theorem shaped_withParameters (t : Template) {ps : List Parameter} (h : ValidAll ps) :
    Shaped (t.withParameters ps) ps := by
  refine
    { positional := ?_
      min := ?_
      max := ?_
      allowed := ?_
      required := ?_
      sublist := ?_ }
  · -- the required ones come first, so the list is that of the required and then that of the others
    refine ⟨((ps.filter isPositional).filter fun p => !p.isMandatory).map fallback, ?_, ?_⟩
    · have hmandatory : ((ps.filter isPositional).filter isMandatory).map fallback =
          List.replicate (ps.countP fun p => p.isMandatory && p.isPositional) .required := by
        rw [List.filter_filter, List.countP_eq_length_filter, ← List.map_const']
        refine List.map_congr_left fun p hp => ?_
        have hgiven := (List.mem_filter.mp hp).2
        exact fallback_of_isMandatory (Bool.and_eq_true_iff.mp hgiven).1
      rw [← hmandatory, ← List.map_append, filter_append_filter_of_pairwise h.mandatoryFirst]
      rfl
    · intro f hf
      obtain ⟨p, hp, rfl⟩ := List.mem_map.mp hf
      rw [isRequired_fallback]
      simpa using (List.mem_filter.mp hp).2
  · rw [shape, withParameters, List.countP_map, List.countP_filter]
    simp only [Function.comp_apply, isRequired_fallback]
  · rw [shape, withParameters, List.length_map, ← List.countP_eq_length_filter, Option.isSome_map,
      List.isSome_find?]
  · rw [shape, withParameters, List.map_map]
    rfl
  · rw [shape, withParameters, List.filter_map, List.map_map, List.filter_filter]
    simp only [Function.comp_def, isRequired_fallback]
  · exact List.filter_sublist.map _

/-! ### The grammar -/

/-- What reading a node as a definition comes to: the template that is defined there, with reports of
    the placeholders in its body that name no parameter; or one report of what is wrong. -/
structure ReadsDefinition (n : Node) : Prop extends
    Follows (fun read => ∃ d : Draft, d.Of n ∧ read = (d.template n.location, d.undeclared)) (Fault n)
      (define n) where
  /-- What the template asks of a caller is told by its parameters. -/
  shaped : ∀ d : Draft, d.Of n → Shaped (d.template n.location) d.parameters

/-- **The grammar of definitions.** Every node is read as a template exactly when it is a group of
    the keyword, a name, a group of parameters that may be declared together, and a body. Otherwise
    there is exactly one report. -/
theorem define_grammar (n : Node) : ReadsDefinition n :=
  { define_follows n with shaped := fun d _ => shaped_withParameters _ d.valid }

end Formwork.Template
