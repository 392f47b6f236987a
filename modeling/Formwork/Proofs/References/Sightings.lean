import Formwork.Proofs.Cutout.Leftovers
import Formwork.References

namespace Formwork

/-!
# What a document names and mentions

Where a definition goes and what a reference can see, read off the trees and without a resolver. A
walk over the document notes, in document order, each form that names something and each atom that
mentions something, together with the scopes around it. A form *lands* in the innermost scope around
it that takes its kind, and a reference is *met* when a form with its identifier, before it or after
it, lands in a scope around it.

* `Sighting.survey` — the walk.
* `Mention.Met` — which references are met, and `Naming.IsFirst` — by which forms.
* `Naming.repeats` — the reports of forms that land where their identifier has been defined.
* `scopes_numbered` — no two scopes have the same number.
* `form_mem_preorder`, `site_mem_preorder` — what is noted is in the document.
* `mentions_eq` — the walk notes each atom that is a reference, once, and `exists_mention_iff` — these
  are the atoms that are written `#id`.
-/

/-! ### Scopes -/

/-- A scope of a document, with the kinds of definitions that it takes. The document is number 0,
    and the scopes of forms are numbered as they open, so that no two have the same number. -/
structure Scope where
  number : Nat
  kinds : List String

namespace Scope

/-- The scope that the document is. -/
def document : Scope := ⟨0, ["*"]⟩

/-- Whether a scope takes definitions of a kind. -/
def Takes (s : Scope) (kind : String) : Prop := "*" ∈ s.kinds ∨ kind ∈ s.kinds

instance (s : Scope) (kind : String) : Decidable (s.Takes kind) :=
  inferInstanceAs (Decidable (_ ∨ _))

end Scope

/-- The kinds that the scope of a form takes, if its head opens one. -/
def Scopes.kinds? (scopes : Scopes) (form : Node) : Option (List String) :=
  form.headName?.bind fun head => scopes.lookup head

/-- The number of scopes that are opened in nodes. -/
def Scopes.openings (scopes : Scopes) (ns : List Node) : Nat :=
  (ns.flatMap Node.preorder).countP fun n => (scopes.kinds? n).isSome

namespace Scopes

variable (scopes : Scopes)

/-- An atom opens no scope. -/
theorem openings_atom (a : Atom) : scopes.openings [.atom a] = 0 := rfl

/-- A comment opens no scope. -/
theorem openings_comment (c : Comment) : scopes.openings [.comment c] = 0 := rfl

/-- A group may open a scope, before those inside. -/
theorem openings_group (d : Delim) (cs : List Node) (l s : Location) :
    scopes.openings [.group d cs l s]
      = (if (scopes.kinds? (.group d cs l s)).isSome then 1 else 0) + scopes.openings cs := by
  simp [openings, Node.preorder_group, List.countP_cons, Nat.add_comm]

theorem openings_cons (n : Node) (ns : List Node) :
    scopes.openings (n :: ns) = scopes.openings [n] + scopes.openings ns := by
  simp [openings]

end Scopes

/-! ### Forms that define -/

/-- A form that defines an identifier, with the scopes around it, innermost first. Its kind is its
    head: a group that does not start with an atom has none, and defines nothing. -/
structure Naming where
  around : List Scope
  kind : String
  id : String
  form : Node

namespace Naming

/-- The number of the scope that a definition lands in: the innermost one around it that takes its
    kind. -/
def lands? (d : Naming) : Option Nat :=
  (d.around.find? fun s => s.Takes d.kind).map Scope.number

/-- The first form that defines an identifier in the scope with a number. -/
def first? (ds : List Naming) (id : String) (number : Nat) : Option Naming :=
  ds.find? fun d => d.id = id ∧ d.lands? = some number

/-- Whether a form is the first that defines its identifier in the scope where it lands. -/
def IsFirst (ds : List Naming) (d : Naming) : Prop :=
  ∃ number, d.lands? = some number ∧ first? ds d.id number = some d

/-- The report of a form, after the forms `earlier`, if it is not the first. -/
def repeat? (earlier : List Naming) (d : Naming) : Option Report :=
  (d.lands?.bind fun number => first? earlier d.id number).map fun e =>
    { problem := .duplicateDefinition d.id, nodes := [d.form, e.form] }

/-- The reports of the forms that are not the first, in order, after the forms `earlier`. -/
def repeatsAfter (earlier : List Naming) : List Naming → List Report
  | [] => []
  | d :: ds => (d.repeat? earlier).toList ++ repeatsAfter (earlier ++ [d]) ds

/-- The reports of the forms that are not the first to define their identifier where they land. -/
def repeats (ds : List Naming) : List Report := repeatsAfter [] ds

theorem repeatsAfter_append (earlier ds es : List Naming) :
    repeatsAfter earlier (ds ++ es) = repeatsAfter earlier ds ++ repeatsAfter (earlier ++ ds) es := by
  induction ds generalizing earlier with
  | nil => simp [repeatsAfter]
  | cons d ds ih => simp [repeatsAfter, ih]

/-- One form more is reported if it is not the first. -/
theorem repeats_snoc (ds : List Naming) (d : Naming) :
    repeats (ds ++ [d]) = repeats ds ++ (d.repeat? ds).toList := by
  simp [repeats, repeatsAfter_append, repeatsAfter]

/-- What has been found first is first when forms follow. -/
theorem first?_append (ds es : List Naming) (id : String) (number : Nat) :
    first? (ds ++ es) id number = (first? ds id number).or (first? es id number) :=
  List.find?_append

theorem of_first?_eq_some {ds : List Naming} {id : String} {number : Nat} {d : Naming}
    (h : first? ds id number = some d) : d ∈ ds ∧ d.id = id ∧ d.lands? = some number :=
  ⟨List.mem_of_find?_eq_some h, by simpa using List.find?_some h⟩

theorem first?_eq_none_iff {ds : List Naming} {id : String} {number : Nat} :
    first? ds id number = none ↔ ∀ d ∈ ds, d.id = id → d.lands? ≠ some number := by
  simp [first?]

/-- A form is found under its own identifier where it lands, and nowhere else. -/
theorem first?_singleton (d : Naming) (id : String) (number : Nat) :
    first? [d] id number = if d.id = id ∧ d.lands? = some number then some d else none := by
  by_cases h : d.id = id ∧ d.lands? = some number <;> simp [first?, h]

theorem IsFirst.append {ds : List Naming} {d : Naming} (h : IsFirst ds d) (es : List Naming) :
    IsFirst (ds ++ es) d := by
  obtain ⟨number, hlands, hfirst⟩ := h
  exact ⟨number, hlands, by rw [first?_append, hfirst, Option.some_or]⟩

end Naming

/-! ### References -/

/-- An atom that refers to an identifier, with the scopes around it, innermost first. -/
structure Mention where
  around : List Scope
  id : String
  site : Node

namespace Mention

/-- Whether a definition meets a reference: it has the identifier and lands in a scope around it. -/
def MetBy (r : Mention) (d : Naming) : Prop :=
  d.id = r.id ∧ ∃ s ∈ r.around, d.lands? = some s.number

instance (r : Mention) (d : Naming) : Decidable (r.MetBy d) :=
  inferInstanceAs (Decidable (_ ∧ _))

/-- Whether one of some definitions meets a reference. -/
def Met (ds : List Naming) (r : Mention) : Prop := ∃ d ∈ ds, r.MetBy d

instance (ds : List Naming) (r : Mention) : Decidable (r.Met ds) :=
  inferInstanceAs (Decidable (∃ d ∈ ds, _))

/-- The report of a reference that is not met. -/
def unresolved (r : Mention) : Report := .atNode (.unresolvedIdentifier r.id) r.site

theorem met_append {ds es : List Naming} {r : Mention} : r.Met (ds ++ es) ↔ r.Met ds ∨ r.Met es := by
  simp [Met, or_and_right, exists_or]

theorem met_singleton {d : Naming} {r : Mention} : r.Met [d] ↔ r.MetBy d := by
  simp [Met]

/-- A reference is met when one of the scopes around it has a first definition. -/
theorem met_iff {ds : List Naming} {r : Mention} :
    r.Met ds ↔ ∃ s ∈ r.around, ∃ d, Naming.first? ds r.id s.number = some d := by
  constructor
  · rintro ⟨d, hd, hid, s, hs, hlands⟩
    refine ⟨s, hs, Option.ne_none_iff_exists'.mp fun hnone => ?_⟩
    exact Naming.first?_eq_none_iff.mp hnone d hd hid hlands
  · rintro ⟨s, hs, d, hd⟩
    obtain ⟨hmem, hid, hlands⟩ := Naming.of_first?_eq_some hd
    exact ⟨d, hmem, hid, s, hs, hlands⟩

end Mention

/-! ### Answers -/

namespace Mention

/-- Whether an answer to a reference is right: it is for this reference, and it names a form that
    meets it and that is the first of its identifier where it lands. -/
def AnsweredBy (r : Mention) (ds : List Naming) (answer : Resolved) : Prop :=
  answer.id = r.id ∧ answer.site = r.site ∧
    ∃ d ∈ ds, r.MetBy d ∧ d.IsFirst ds ∧ answer.target = d.form

/-- Whether the references that are met are answered, each of them once, and no others. -/
def Answered (resolved : List Resolved) (ds : List Naming) (rs : List Mention) : Prop :=
  ∃ answers : List (Mention × Resolved), resolved = answers.map Prod.snd ∧
    (answers.map Prod.fst).Perm (rs.filter fun r => r.Met ds) ∧
    ∀ a ∈ answers, a.1.AnsweredBy ds a.2

/-- The answer to a reference that is met by the form `target`. -/
def answer (r : Mention) (target : Node) : Resolved := { id := r.id, site := r.site, target }

variable {ds : List Naming} {rs : List Mention} {resolved : List Resolved}

theorem AnsweredBy.append {r : Mention} {answer : Resolved} (h : r.AnsweredBy ds answer)
    (es : List Naming) : r.AnsweredBy (ds ++ es) answer := by
  obtain ⟨hid, hsite, d, hd, hmet, hfirst, htarget⟩ := h
  exact ⟨hid, hsite, d, List.mem_append_left es hd, hmet, hfirst.append es, htarget⟩

/-- What has been answered are the references that are met, in some order. -/
theorem Answered.sites_perm (h : Answered resolved ds rs) :
    (resolved.map fun a => (a.id, a.site)).Perm
      ((rs.filter fun r => r.Met ds).map fun r => (r.id, r.site)) := by
  obtain ⟨answers, rfl, hperm, hright⟩ := h
  have hsites : (answers.map Prod.snd).map (fun a => (a.id, a.site))
      = (answers.map Prod.fst).map fun r => (r.id, r.site) := by
    rw [List.map_map, List.map_map]
    exact List.map_congr_left fun a ha => Prod.ext (hright a ha).1 (hright a ha).2.1
  rw [hsites]
  exact hperm.map _

/-- One reference more, which is met and answered. -/
theorem Answered.snoc_met (h : Answered resolved ds rs) {r : Mention} (hmet : r.Met ds)
    {answer : Resolved} (hanswer : r.AnsweredBy ds answer) :
    Answered (resolved ++ [answer]) ds (rs ++ [r]) := by
  obtain ⟨answers, rfl, hperm, hright⟩ := h
  -- the mention is met, so it joins those that are, with its answer
  refine ⟨answers ++ [(r, answer)], by simp, ?_, ?_⟩
  · rw [List.map_append, List.filter_append]
    refine hperm.append (List.Perm.of_eq ?_)
    simp [hmet]
  · intro a ha
    obtain ha | ha := List.mem_append.mp ha
    · exact hright a ha
    · obtain rfl := List.mem_singleton.mp ha
      exact hanswer

/-- One reference more, which is not met. -/
theorem Answered.snoc_unmet (h : Answered resolved ds rs) {r : Mention} (hunmet : ¬r.Met ds) :
    Answered resolved ds (rs ++ [r]) := by
  obtain ⟨answers, hresolved, hperm, hright⟩ := h
  refine ⟨answers, hresolved, ?_, hright⟩
  simpa [List.filter_append, hunmet] using hperm

/-- What is met after one form more: what was met before, and what is met by that form. -/
theorem filter_met_perm (ds : List Naming) (d : Naming) (rs : List Mention) :
    ((rs.filter fun r => r.Met ds) ++ ((rs.filter fun r => ¬r.Met ds).filter fun r => r.MetBy d)).Perm
      (rs.filter fun r => r.Met (ds ++ [d])) := by
  have hsplit := List.filter_append_perm (fun r : Mention => decide (r.Met ds))
    (rs.filter fun r => r.Met (ds ++ [d]))
  refine List.Perm.trans (List.Perm.of_eq ?_) hsplit
  rw [List.filter_filter, List.filter_filter, List.filter_filter]
  congr 1 <;> refine List.filter_congr fun r _ => ?_
  · by_cases hr : r.Met ds <;> simp [hr, Mention.met_append]
  · by_cases hr : r.Met ds <;> simp [hr, Mention.met_append, Mention.met_singleton]

/-- One form more, which answers the references that only it meets. -/
theorem Answered.snoc_naming (h : Answered resolved ds rs) {d : Naming}
    {woken : List Mention}
    (hwoken : woken.Perm ((rs.filter fun r => ¬r.Met ds).filter fun r => r.MetBy d))
    (hfirst : d.IsFirst (ds ++ [d])) :
    Answered (resolved ++ woken.map fun r => r.answer d.form) (ds ++ [d]) rs := by
  obtain ⟨answers, rfl, hperm, hright⟩ := h
  -- the new answers are those of the mentions that were waiting for this name
  refine ⟨answers ++ woken.map fun r => (r, r.answer d.form), ?_, ?_, ?_⟩
  · rw [List.map_append, List.map_map]
    rfl
  · rw [List.map_append, List.map_map]
    refine List.Perm.trans ?_ (filter_met_perm ds d rs)
    simpa [Function.comp_def] using hperm.append hwoken
  · intro a ha
    obtain ha | ha := List.mem_append.mp ha
    · exact (hright a ha).append [d]
    · obtain ⟨r, hr, rfl⟩ := List.mem_map.mp ha
      have hby : r.MetBy d := by simpa using (List.mem_filter.mp (hwoken.subset hr)).2
      exact ⟨rfl, rfl, d, by simp, hby, hfirst, rfl⟩

end Mention

/-! ### The walk -/

/-- What the walk over a document notes. -/
inductive Sighting where
  | naming (naming : Naming)
  | mention (mention : Mention)

namespace Sighting

/-- The form that defines, if the sighting is one. -/
def naming? : Sighting → Option Naming
  | naming d => some d
  | mention _ => none

/-- The reference, if the sighting is one. -/
def mention? : Sighting → Option Mention
  | naming _ => none
  | mention r => some r

/-- What a form defines, if it has a head and names something. -/
def ofForm (around : List Scope) (form : Node) : List Sighting :=
  match form.headName?, definedName? form with
  | some kind, some id => [.naming { around, kind, id, form }]
  | _, _ => []

/-- What an atom refers to, if it is a reference. -/
def ofAtom (around : List Scope) (a : Atom) : List Sighting :=
  match a.reference? with
  | some id => [.mention { around, id, site := .atom a }]
  | none => []

mutual

/-- What a node names and mentions, in document order. `around` are the scopes around the node,
    innermost first, and `next` is the number of the next scope that opens. A form lies in the
    scopes around it, and what is inside the form in its own scope too, if it opens one. -/
def survey (scopes : Scopes) (around : List Scope) (next : Nat) : Node → List Sighting
  | .atom a => ofAtom around a
  | .comment _ => []
  | .group d cs l s =>
    ofForm around (.group d cs l s) ++
      match scopes.kinds? (.group d cs l s) with
      | some kinds => surveyAll scopes (⟨next, kinds⟩ :: around) (next + 1) cs
      | none => surveyAll scopes around next cs

/-- What nodes name and mention, one after another. -/
def surveyAll (scopes : Scopes) (around : List Scope) (next : Nat) : List Node → List Sighting
  | [] => []
  | n :: ns =>
    survey scopes around next n ++ surveyAll scopes around (next + scopes.openings [n]) ns

end

end Sighting

/-- The forms of a document that define something, in document order. -/
def namings (scopes : Scopes) (ns : List Node) : List Naming :=
  (Sighting.surveyAll scopes [.document] 1 ns).filterMap Sighting.naming?

/-- The references of a document, in document order. -/
def mentions (scopes : Scopes) (ns : List Node) : List Mention :=
  (Sighting.surveyAll scopes [.document] 1 ns).filterMap Sighting.mention?

/-! ### Scopes have numbers of their own -/

/-- The forms in nodes that open a scope, in document order. -/
def Scopes.forms (scopes : Scopes) (ns : List Node) : List Node :=
  (ns.flatMap Node.preorder).filter fun n => (scopes.kinds? n).isSome

namespace Scopes

variable (scopes : Scopes)

theorem length_forms (ns : List Node) : (scopes.forms ns).length = scopes.openings ns :=
  List.countP_eq_length_filter.symm

theorem forms_cons (n : Node) (ns : List Node) :
    scopes.forms (n :: ns) = scopes.forms [n] ++ scopes.forms ns := by
  simp [forms]

/-- A group that opens a scope comes before the forms inside. -/
theorem forms_group (d : Delim) (cs : List Node) (l s : Location) :
    scopes.forms [.group d cs l s]
      = (if (scopes.kinds? (.group d cs l s)).isSome then [.group d cs l s] else [])
        ++ scopes.forms cs := by
  simp only [forms, List.flatMap_cons, List.flatMap_nil, List.append_nil, Node.preorder_group,
    List.filter_cons]
  split <;> rfl

end Scopes

namespace Scope

/-- Whether a scope is that of one of some forms, which are numbered from `next` on. -/
def IsAmong (scopes : Scopes) (next : Nat) (forms : List Node) (s : Scope) : Prop :=
  ∃ i form, s.number = next + i ∧ forms[i]? = some form ∧ scopes.kinds? form = some s.kinds

variable {scopes : Scopes} {next : Nat} {forms : List Node} {s t : Scope}

theorem IsAmong.next_le (h : s.IsAmong scopes next forms) : next ≤ s.number := by
  obtain ⟨i, form, hnumber, -⟩ := h
  omega

/-- Forms that follow are numbered after. -/
theorem IsAmong.append (h : s.IsAmong scopes next forms) (later : List Node) :
    s.IsAmong scopes next (forms ++ later) := by
  obtain ⟨i, form, hnumber, hform, hkinds⟩ := h
  have hlt : i < forms.length := (List.getElem?_eq_some_iff.mp hform).1
  exact ⟨i, form, hnumber, (List.getElem?_append_left hlt).trans hform, hkinds⟩

/-- Forms that come before are numbered before. -/
theorem IsAmong.prepend {earlier : List Node}
    (h : s.IsAmong scopes (next + earlier.length) forms) :
    s.IsAmong scopes next (earlier ++ forms) := by
  obtain ⟨i, form, hnumber, hform, hkinds⟩ := h
  refine ⟨earlier.length + i, form, by omega, ?_, hkinds⟩
  rw [List.getElem?_append_right (by omega), Nat.add_sub_cancel_left, hform]

/-- A number is that of one scope. -/
theorem IsAmong.eq_of_number_eq (hs : s.IsAmong scopes next forms)
    (ht : t.IsAmong scopes next forms) (h : s.number = t.number) : s = t := by
  obtain ⟨i, form, hi, hform, hkinds⟩ := hs
  obtain ⟨j, form', hj, hform', hkinds'⟩ := ht
  obtain rfl : i = j := by omega
  obtain rfl : form = form' := Option.some.inj (hform.symm.trans hform')
  have hsame : s.kinds = t.kinds := Option.some.inj (hkinds.symm.trans hkinds')
  cases s
  cases t
  congr

end Scope

namespace Sighting

/-- The scopes around what was noted. -/
def around : Sighting → List Scope
  | naming d => d.around
  | mention r => r.around

/-- Whether the scopes around a sighting are `outer` and, inside them, scopes of some forms, which
    are numbered from `next` on, the inner the greater. -/
def Inside (scopes : Scopes) (outer : List Scope) (next : Nat) (forms : List Node) (x : Sighting) :
    Prop :=
  ∃ inner, x.around = inner ++ outer ∧ (inner.map Scope.number).Pairwise (· > ·) ∧
    ∀ s ∈ inner, s.IsAmong scopes next forms

variable {scopes : Scopes} {outer : List Scope} {x : Sighting}

theorem Inside.append {next : Nat} {forms : List Node} (h : x.Inside scopes outer next forms)
    (later : List Node) : x.Inside scopes outer next (forms ++ later) := by
  obtain ⟨inner, hx, hpairs, hinner⟩ := h
  exact ⟨inner, hx, hpairs, fun s hs => (hinner s hs).append later⟩

theorem Inside.prepend {next : Nat} {earlier forms : List Node}
    (h : x.Inside scopes outer (next + earlier.length) forms) :
    x.Inside scopes outer next (earlier ++ forms) := by
  obtain ⟨inner, hx, hpairs, hinner⟩ := h
  exact ⟨inner, hx, hpairs, fun s hs => (hinner s hs).prepend⟩

/-- Around what is inside a form that opens a scope is that scope, and then what is around the
    form. -/
theorem Inside.of_opened {form : Node} {kinds : List String}
    (hkinds : scopes.kinds? form = some kinds) {next : Nat} {forms : List Node}
    (h : x.Inside scopes (⟨next, kinds⟩ :: outer) (next + 1) forms) :
    x.Inside scopes outer next (form :: forms) := by
  obtain ⟨inner, hx, hpairs, hinner⟩ := h
  refine ⟨inner ++ [⟨next, kinds⟩], by simp [hx], ?_, ?_⟩
  · -- the scopes further in have numbers from `next + 1` on
    rw [List.map_append, List.pairwise_append]
    refine ⟨hpairs, List.pairwise_singleton _ _, ?_⟩
    intro m hm k hk
    obtain ⟨t, ht, rfl⟩ := List.mem_map.mp hm
    obtain rfl := List.mem_singleton.mp hk
    exact (hinner t ht).next_le
  · intro t ht
    obtain ht | ht := List.mem_append.mp ht
    · show t.IsAmong scopes next ([form] ++ forms)
      exact (hinner t ht).prepend
    · obtain rfl := List.mem_singleton.mp ht
      exact ⟨0, form, rfl, rfl, hkinds⟩

/-- Around the form itself is what is around it. -/
theorem inside_ofForm {form : Node} (hx : x ∈ ofForm outer form) (next : Nat) (forms : List Node) :
    x.Inside scopes outer next forms := by
  unfold ofForm at hx
  split at hx
  case h_1 =>
    obtain rfl := List.mem_singleton.mp hx
    exact ⟨[], rfl, .nil, by simp⟩
  case h_2 => cases hx

theorem inside_ofAtom {a : Atom} (hx : x ∈ ofAtom outer a) (next : Nat) (forms : List Node) :
    x.Inside scopes outer next forms := by
  unfold ofAtom at hx
  split at hx
  case h_1 =>
    obtain rfl := List.mem_singleton.mp hx
    exact ⟨[], rfl, .nil, by simp⟩
  case h_2 => cases hx

mutual

/-- The forms in a node that open a scope are numbered from `next` on. -/
theorem inside_survey (scopes : Scopes) : ∀ (n : Node) (outer : List Scope) (next : Nat),
    ∀ x ∈ survey scopes outer next n, x.Inside scopes outer next (scopes.forms [n])
  | .atom _, _, _, _, hx => inside_ofAtom hx _ _
  | .comment _, _, _, _, hx => by cases hx
  | .group d cs l s, outer, next, x, hx => by
    rw [survey] at hx
    obtain hx | hx := List.mem_append.mp hx
    · exact inside_ofForm hx _ _
    rw [scopes.forms_group]
    cases hkinds : scopes.kinds? (.group d cs l s) with
    | none =>
      rw [hkinds] at hx
      exact inside_surveyAll scopes cs outer next x hx
    | some kinds =>
      rw [hkinds] at hx
      exact (inside_surveyAll scopes cs _ _ x hx).of_opened hkinds

/-- The forms in nodes that open a scope are numbered from `next` on. -/
theorem inside_surveyAll (scopes : Scopes) : ∀ (ns : List Node) (outer : List Scope) (next : Nat),
    ∀ x ∈ surveyAll scopes outer next ns, x.Inside scopes outer next (scopes.forms ns)
  | [], _, _, _, hx => by cases hx
  | n :: ns, outer, next, x, hx => by
    rw [scopes.forms_cons]
    rw [surveyAll, ← scopes.length_forms] at hx
    obtain hx | hx := List.mem_append.mp hx
    · exact (inside_survey scopes n outer next x hx).append _
    · exact (inside_surveyAll scopes ns outer _ x hx).prepend

end

end Sighting

/-- **Scopes have numbers of their own.** The scopes around what is noted are the document, which is
    number 0, and scopes of forms of the document, numbered from 1 on in the order they open, with
    greater numbers further in. A number is that of one scope, wherever it is seen. -/
theorem scopes_numbered (scopes : Scopes) (ns : List Node) :
    (∀ x ∈ Sighting.surveyAll scopes [.document] 1 ns,
      (x.around.map Scope.number).Pairwise (· > ·) ∧
        ∀ s ∈ x.around, s = .document ∨ s.IsAmong scopes 1 (scopes.forms ns)) ∧
      ∀ x ∈ Sighting.surveyAll scopes [.document] 1 ns,
        ∀ y ∈ Sighting.surveyAll scopes [.document] 1 ns,
          ∀ s ∈ x.around, ∀ t ∈ y.around, s.number = t.number → s = t := by
  have hplaces : ∀ x ∈ Sighting.surveyAll scopes [.document] 1 ns,
      (x.around.map Scope.number).Pairwise (· > ·) ∧
        ∀ s ∈ x.around, s = .document ∨ s.IsAmong scopes 1 (scopes.forms ns) := by
    intro x hx
    obtain ⟨inner, haround, hpairs, hinner⟩ := Sighting.inside_surveyAll scopes ns _ _ x hx
    rw [haround, List.map_append]
    refine ⟨List.pairwise_append.mpr ⟨hpairs, List.pairwise_singleton _ _, ?_⟩, ?_⟩
    · intro m hm k hk
      obtain ⟨t, ht, rfl⟩ := List.mem_map.mp hm
      obtain rfl := List.mem_singleton.mp hk
      exact (hinner t ht).next_le
    · intro s hs
      obtain hs | hs := List.mem_append.mp hs
      · exact .inr (hinner s hs)
      · exact .inl (List.mem_singleton.mp hs)
  refine ⟨hplaces, fun x hx y hy s hs t ht hnumber => ?_⟩
  -- the document is the only scope with a number below 1
  have hdocument : ∀ {u : Scope}, u.IsAmong scopes 1 (scopes.forms ns) → u.number ≠ 0 :=
    fun hu => Nat.one_le_iff_ne_zero.mp hu.next_le
  obtain rfl | hs := (hplaces x hx).2 s hs <;> obtain rfl | ht := (hplaces y hy).2 t ht
  · rfl
  · exact absurd hnumber.symm (hdocument ht)
  · exact absurd hnumber (hdocument hs)
  · exact hs.eq_of_number_eq ht hnumber

/-! ### Every reference is noted -/

namespace Node

/-- What a node refers to, and the node, if it is an atom that is a reference. -/
def reference? (n : Node) : Option (String × Node) :=
  (n.atom?.bind Atom.reference?).map fun id => (id, n)

end Node

namespace Sighting

/-- The references of a walk, without the scopes around them. -/
def references (sightings : List Sighting) : List (String × Node) :=
  (sightings.filterMap mention?).map fun r => (r.id, r.site)

@[simp] theorem references_append (ss ts : List Sighting) :
    references (ss ++ ts) = references ss ++ references ts := by
  simp [references]

theorem references_ofForm (around : List Scope) (form : Node) :
    references (ofForm around form) = [] := by
  unfold ofForm
  split <;> rfl

mutual

/-- A walk over a node notes the references in it. -/
theorem references_survey (scopes : Scopes) : ∀ (n : Node) (around : List Scope) (next : Nat),
    references (survey scopes around next n) = n.preorder.filterMap Node.reference?
  | .atom a, around, next => by
    cases ha : a.reference? <;>
      simp [survey, ofAtom, references, mention?, Node.preorder, Node.walk, Node.reference?,
        Node.atom?, ha]
  | .comment c, around, next => rfl
  | .group d cs l s, around, next => by
    rw [survey, references_append, references_ofForm, List.nil_append, Node.preorder_group,
      List.filterMap_cons]
    split <;> exact references_surveyAll scopes cs _ _

/-- A walk over nodes notes the references in them. -/
theorem references_surveyAll (scopes : Scopes) :
    ∀ (ns : List Node) (around : List Scope) (next : Nat),
      references (surveyAll scopes around next ns)
        = (ns.flatMap Node.preorder).filterMap Node.reference?
  | [], around, next => rfl
  | n :: ns, around, next => by
    rw [surveyAll, references_append, references_survey scopes n, references_surveyAll scopes ns,
      List.flatMap_cons, List.filterMap_append]

end

end Sighting

/-! ### What is noted is in the document -/

namespace Sighting

/-- The form or the atom that was noted. -/
def node : Sighting → Node
  | naming d => d.form
  | mention r => r.site

mutual

/-- A walk over a node notes nothing else than what is in it. -/
theorem node_mem_preorder (scopes : Scopes) : ∀ (n : Node) (around : List Scope) (next : Nat),
    ∀ x ∈ survey scopes around next n, x.node ∈ n.preorder
  | .atom a, around, next, x, hx => by
    rw [survey, ofAtom] at hx
    split at hx
    · obtain rfl := List.mem_singleton.mp hx
      exact List.mem_singleton_self _
    · cases hx
  | .comment c, around, next, x, hx => by cases hx
  | .group d cs l s, around, next, x, hx => by
    rw [Node.preorder_group, List.mem_cons]
    rw [survey] at hx
    rcases List.mem_append.mp hx with hx | hx
    · left
      rw [ofForm] at hx
      split at hx
      · obtain rfl := List.mem_singleton.mp hx
        rfl
      · cases hx
    · right
      -- whether a scope is opened changes what is around the contents, and not the contents
      split at hx <;> exact node_mem_flatMap_preorder scopes cs _ _ x hx

/-- A walk over nodes notes nothing else than what is in them. -/
theorem node_mem_flatMap_preorder (scopes : Scopes) :
    ∀ (ns : List Node) (around : List Scope) (next : Nat),
      ∀ x ∈ surveyAll scopes around next ns, x.node ∈ ns.flatMap Node.preorder
  | [], around, next, x, hx => by cases hx
  | n :: ns, around, next, x, hx => by
    rw [List.flatMap_cons, List.mem_append]
    rw [surveyAll] at hx
    rcases List.mem_append.mp hx with hx | hx
    · exact .inl (node_mem_preorder scopes n _ _ x hx)
    · exact .inr (node_mem_flatMap_preorder scopes ns _ _ x hx)

end

end Sighting

/-- A form that defines something is in the document. -/
theorem form_mem_preorder {scopes : Scopes} {ns : List Node} {d : Naming} (h : d ∈ namings scopes ns) :
    d.form ∈ ns.flatMap Node.preorder := by
  obtain ⟨x, hx, hnaming⟩ := List.mem_filterMap.mp h
  have hmem := Sighting.node_mem_flatMap_preorder scopes ns _ _ x hx
  cases x with
  | naming e =>
    obtain rfl : e = d := Option.some.inj hnaming
    exact hmem
  | mention r => cases hnaming

/-- A reference is in the document. -/
theorem site_mem_preorder {scopes : Scopes} {ns : List Node} {r : Mention}
    (h : r ∈ mentions scopes ns) : r.site ∈ ns.flatMap Node.preorder := by
  obtain ⟨x, hx, hmention⟩ := List.mem_filterMap.mp h
  have hmem := Sighting.node_mem_flatMap_preorder scopes ns _ _ x hx
  cases x with
  | naming d => cases hmention
  | mention q =>
    obtain rfl : q = r := Option.some.inj hmention
    exact hmem

/-- The forms that are not the first are reported with the first. -/
theorem Naming.of_mem_repeatsAfter {earlier ds : List Naming} {report : Report}
    (h : report ∈ repeatsAfter earlier ds) :
    report.locations = [] ∧ ∀ n ∈ report.nodes, ∃ d ∈ earlier ++ ds, n = d.form := by
  induction ds generalizing earlier with
  | nil => cases h
  | cons d ds ih =>
    -- the repetition is of the first naming, or of one behind it
    rcases List.mem_append.mp h with h | h
    · obtain ⟨e, he, rfl⟩ := Option.map_eq_some_iff.mp (Option.mem_toList.mp h)
      obtain ⟨number, -, hfirst⟩ := Option.bind_eq_some_iff.mp he
      have he : e ∈ earlier := (of_first?_eq_some hfirst).1
      refine ⟨rfl, ?_⟩
      rw [List.forall_mem_cons, List.forall_mem_singleton]
      exact ⟨⟨d, by simp, rfl⟩, ⟨e, by simp [he], rfl⟩⟩
    · obtain ⟨hlocations, hnodes⟩ := ih h
      rw [List.append_assoc] at hnodes
      exact ⟨hlocations, hnodes⟩

/-- The walk notes each atom of the document that is a reference, once and in document order. -/
theorem mentions_eq (scopes : Scopes) (ns : List Node) :
    (mentions scopes ns).map (fun r => (r.id, r.site))
      = (ns.flatMap Node.preorder).filterMap Node.reference? :=
  Sighting.references_surveyAll scopes ns _ _

/-- An atom of a document is noted as a reference exactly when it is written `#id`. -/
theorem exists_mention_iff {scopes : Scopes} {ns : List Node} {a : Atom} {id : String} :
    (∃ r ∈ mentions scopes ns, r.id = id ∧ r.site = .atom a) ↔
      .atom a ∈ ns.flatMap Node.preorder ∧ a.value = "#" ++ id ∧ id ≠ "" := by
  have hnoted : (∃ r ∈ mentions scopes ns, r.id = id ∧ r.site = .atom a) ↔
      (id, .atom a) ∈ (mentions scopes ns).map fun r => (r.id, r.site) := by
    simp only [List.mem_map, Prod.mk.injEq]
  rw [hnoted, mentions_eq, List.mem_filterMap, ← Atom.reference?_eq_some_iff]
  constructor
  · rintro ⟨n, hn, hreference⟩
    obtain ⟨id', hid, heq⟩ := Option.map_eq_some_iff.mp hreference
    obtain ⟨rfl, rfl⟩ := Prod.mk.inj heq
    exact ⟨hn, hid⟩
  · rintro ⟨hmem, hreference⟩
    refine ⟨.atom a, hmem, ?_⟩
    show (a.reference?.map fun id => (id, Node.atom a)) = some (id, .atom a)
    rw [hreference, Option.map_some]

end Formwork
