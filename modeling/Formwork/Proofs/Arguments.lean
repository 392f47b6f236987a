import Formwork.Include
import Formwork.References
import Formwork.Proofs.Invocation

namespace Formwork

/-!
# Looking for one argument

Two things are looked for in a group without reading it as a call: the document that an include form
names, and the identifier that a form defines. Each has a search of its own, which goes over the
nodes after the head from left to right. Where the group can be read as a call, the searches are
compared with what is read.

* `includeTarget_first` — the document is named by the first positional argument that is an atom.
  The search passes over a keyword together with its value, so no value is taken for the name.
* `definedName?_argument` — the identifier is the value of the argument `name:`, unless an earlier
  argument has the keyword `name:` for its value. The search does not pass over values, so it stops
  there.
-/

open Invocation (Keyword Phrase Positional written entries)

/-! ### The target of an include form -/

/-- Keyword arguments are passed over, whatever their values are. -/
theorem firstAtomArgument_written (pairs : List (Keyword × Node)) (ns : List Node) :
    firstAtomArgument (written pairs ++ ns) = firstAtomArgument ns := by
  induction pairs with
  | nil => rfl
  | cons p pairs ih =>
    obtain ⟨k, value⟩ := p
    have hkeyword : k.atom.keyword?.isSome = true := by
      rw [Atom.keyword?_eq_some_iff.mpr k.isKeyword, Option.isSome_some]
    rw [Invocation.written_cons, List.cons_append, List.cons_append, firstAtomArgument]
    simp only [Node.atom?, hkeyword, if_true, ih]

/-- Among positional arguments the search finds the first atom. -/
theorem firstAtomArgument_of_positional {ns : List Node} (h : Positional ns) :
    firstAtomArgument ns = (ns.findSome? Node.atom?).map Atom.value := by
  induction ns with
  | nil => rfl
  | cons n ns ih =>
    have hns : Positional ns := fun a ha => h a (List.mem_cons_of_mem n ha)
    unfold firstAtomArgument
    rw [List.findSome?_cons]
    cases hatom : n.atom? with
    | none => exact ih hns
    | some a =>
      have hkeyword : a.keyword? = none := by
        have hn := Invocation.positional_iff.mp h n List.mem_cons_self
        rwa [Node.keyword?, hatom] at hn
      simp [hkeyword]

/-- The search finds the first atom of the positional arguments. -/
theorem firstAtomArgument_of_ofNode {n : Node} {inv : Invocation}
    (h : Invocation.ofNode n = .ok inv) :
    firstAtomArgument n.tail = (inv.remainder.findSome? Node.atom?).map Atom.value := by
  obtain ⟨p, hp, rfl⟩ := ((Invocation.ofNode_follows n).accepts inv).mp h
  have htail : n.tail = written p.pairs ++ p.remainder := by
    rw [Node.tail, hp.2, Phrase.nodes, List.drop_one, List.tail_cons]
  rw [htail, firstAtomArgument_written, firstAtomArgument_of_positional p.positional]
  rfl

/-- **The target is the first atom.** Where an include form can be read as a call, it names the
    document that the first atom of its positional arguments names, and none exactly when there is
    no atom among these. So the target does not depend on the keyword arguments. -/
theorem includeTarget_first {n : Node} {inv : Invocation} (h : Invocation.ofNode n = .ok inv) :
    (∀ target, includeTarget n = .ok target ↔
      ∃ before a after, inv.remainder = before ++ .atom a :: after ∧
        (∀ m ∈ before, m.atom? = none) ∧ a.value = target) ∧
    (includeTarget n = .error .noTarget ↔ ∀ m ∈ inv.remainder, m.atom? = none) ∧
    ∀ m other, Invocation.ofNode m = .ok other → other.remainder = inv.remainder →
      includeTarget m = includeTarget n := by
  refine ⟨fun target => ?_, ?_, fun m other hm hremainder => ?_⟩
  · rw [includeTarget, firstAtomArgument_of_ofNode h]
    cases hfound : inv.remainder.findSome? Node.atom? with
    | none =>
      have hnone := List.findSome?_eq_none_iff.mp hfound
      refine iff_of_false (by simp) ?_
      rintro ⟨before, a, after, hsplit, -, -⟩
      have ha := hnone (.atom a) (hsplit ▸ List.mem_append_right _ List.mem_cons_self)
      cases ha
    | some a =>
      obtain ⟨before, k, after, hsplit, hk, hbefore⟩ := List.findSome?_eq_some_iff.mp hfound
      obtain rfl : k = .atom a := by
        cases k with
        | atom b => exact congrArg Node.atom (Option.some.inj hk)
        | comment => cases hk
        | group => cases hk
      simp only [Option.map_some, Except.ok.injEq]
      constructor
      · exact fun htarget => ⟨before, a, after, hsplit, hbefore, htarget⟩
      · rintro ⟨before', b, after', hsplit', hbefore', rfl⟩
        -- both are the first atom
        have hb : inv.remainder.findSome? Node.atom? = some b :=
          List.findSome?_eq_some_iff.mpr ⟨before', .atom b, after', hsplit', rfl, hbefore'⟩
        rw [hfound] at hb
        rw [Option.some.inj hb]
  · rw [includeTarget, firstAtomArgument_of_ofNode h, ← List.findSome?_eq_none_iff]
    cases inv.remainder.findSome? Node.atom? <;> simp
  · rw [includeTarget, includeTarget, firstAtomArgument_of_ofNode h,
      firstAtomArgument_of_ofNode hm, hremainder]

/-- `(include version: lib: [x] main)`: the value of `version:` looks like a keyword, and the first
    positional argument is a group. -/
theorem includeTarget_first_behind_keyword :
    let word (value : String) : Node := .atom (Atom.plain value .nowhere)
    let form : Node := .group .paren [word "include", word "version:", word "lib:",
      .group .bracket [word "x"] .nowhere .nowhere, word "main"] .nowhere .nowhere
    ∃ inv, Invocation.ofNode form = .ok inv ∧ inv.arguments = [("version", word "lib:")] ∧
      includeTarget form = .ok "main" := by
  intro word form
  refine ⟨_, rfl, rfl, ?_⟩
  exact ((includeTarget_first rfl).1 "main").mpr
    ⟨[.group .bracket [word "x"] .nowhere .nowhere], Atom.plain "main" .nowhere, [], rfl,
      by simp [Node.atom?], rfl⟩

/-! ### The identifier that a form defines -/

/-- The value of a node that is an atom and no keyword. -/
def Node.word? : Node → Option String
  | .atom a => if a.keyword?.isSome then none else some a.value
  | _ => none

theorem Node.word?_eq_some_iff {n : Node} {x : String} :
    n.word? = some x ↔ ∃ a, n = .atom a ∧ a.keyword? = none ∧ a.value = x := by
  cases n with
  | atom a => cases h : a.keyword? <;> simp [word?, h]
  | comment => simp [word?]
  | group => simp [word?]

/-- Whether no keyword argument before `name:` has the keyword `name:` for its value. -/
def NameKept (arguments : List (String × Node)) : Prop :=
  ∀ a ∈ arguments.takeWhile (·.1 ≠ nameWord), a.2.keyword? ≠ some nameWord

instance (arguments : List (String × Node)) : Decidable (NameKept arguments) :=
  inferInstanceAs
    (Decidable (∀ a ∈ arguments.takeWhile (·.1 ≠ nameWord), a.2.keyword? ≠ some nameWord))

/-- Behind the keyword `name:` the search looks at the next node only. -/
theorem nameAmong_name {n : Node} (h : n.keyword? = some nameWord) (ns : List Node) :
    nameAmong (n :: ns) = ns.head?.bind Node.word? := by
  unfold nameAmong
  rw [if_pos h]
  cases ns with
  | nil => rfl
  | cons m ms => cases m <;> rfl

/-- Any other node is passed over, and it alone. -/
theorem nameAmong_other {n : Node} (h : n.keyword? ≠ some nameWord) (ns : List Node) :
    nameAmong (n :: ns) = nameAmong ns := by
  conv_lhs => unfold nameAmong
  rw [if_neg h]

/-- Among positional arguments there is no `name:`. -/
theorem nameAmong_of_positional {ns : List Node} (h : Positional ns) : nameAmong ns = none := by
  induction ns with
  | nil => rfl
  | cons n ns ih =>
    have hn : n.keyword? ≠ some nameWord := by
      rw [Invocation.positional_iff.mp h n List.mem_cons_self]
      simp
    rw [nameAmong_other hn, ih fun a ha => h a (List.mem_cons_of_mem n ha)]

/-- What comes after an argument whose value is the keyword `name:` is the keyword of the next
    argument, which is no identifier, or the first positional argument. -/
theorem nameAmong_value {value : Node} (h : value.keyword? = some nameWord)
    (pairs : List (Keyword × Node)) (ns : List Node) :
    nameAmong (value :: (written pairs ++ ns))
      = if pairs = [] then ns.head?.bind Node.word? else none := by
  rw [nameAmong_name h]
  cases pairs with
  | nil => rfl
  | cons p pairs =>
    obtain ⟨k, v⟩ := p
    have hkeyword : k.atom.keyword? = some k.name := Atom.keyword?_eq_some_iff.mpr k.isKeyword
    simp [Node.word?, hkeyword]

/-- **Where the search stops.** It finds the argument `name:`, or stops at the first value that is
    the keyword `name:` if that comes before. -/
theorem nameAmong_written (pairs : List (Keyword × Node)) {ns : List Node} (hns : Positional ns) :
    (NameKept (entries pairs) →
      nameAmong (written pairs ++ ns)
        = ((entries pairs).find? (·.1 = nameWord)).bind fun a => a.2.word?) ∧
    (¬NameKept (entries pairs) →
      ∃ before key value after, entries pairs = before ++ (key, value) :: after ∧
        (∀ a ∈ before, a.1 ≠ nameWord) ∧ key ≠ nameWord ∧ value.keyword? = some nameWord ∧
        nameAmong (written pairs ++ ns)
          = if after = [] then ns.head?.bind Node.word? else none) := by
  induction pairs with
  | nil =>
    exact ⟨fun _ => nameAmong_of_positional hns, fun h => absurd (by simp [NameKept, entries]) h⟩
  | cons p pairs ih =>
    obtain ⟨k, value⟩ := p
    have hentries : entries ((k, value) :: pairs) = (k.name, value) :: entries pairs := rfl
    rw [hentries, Invocation.written_cons, List.cons_append, List.cons_append]
    by_cases hname : k.name = nameWord
    · -- the argument `name:` itself
      have hkept : NameKept ((k.name, value) :: entries pairs) := by simp [NameKept, hname]
      refine ⟨fun _ => ?_, fun h => absurd hkept h⟩
      rw [nameAmong_name (hname ▸ k.keyword?_eq), List.find?_cons_of_pos (by simpa using hname)]
      rfl
    · have hkeyword : (Node.atom k.atom).keyword? ≠ some nameWord := by
        rw [k.keyword?_eq]
        simpa using hname
      have hfind : ((k.name, value) :: entries pairs).find? (·.1 = nameWord)
          = (entries pairs).find? (·.1 = nameWord) := List.find?_cons_of_neg (by simpa using hname)
      have hkept : NameKept ((k.name, value) :: entries pairs)
          ↔ value.keyword? ≠ some nameWord ∧ NameKept (entries pairs) := by
        simp [NameKept, hname]
      rw [nameAmong_other hkeyword, hfind, hkept]
      by_cases hvalue : value.keyword? = some nameWord
      · -- the value is taken for the keyword of an argument
        refine ⟨fun h => absurd hvalue h.1, fun _ => ⟨[], k.name, value, entries pairs, rfl, ?_⟩⟩
        have hnil : entries pairs = [] ↔ pairs = [] := List.map_eq_nil_iff
        refine ⟨by simp, hname, hvalue, ?_⟩
        rw [nameAmong_value hvalue]
        simp only [hnil]
      · rw [nameAmong_other hvalue]
        refine ⟨fun h => ih.1 h.2, fun h => ?_⟩
        obtain ⟨before, key, v, after, hsplit, hbefore, hkey, hv, hfound⟩ :=
          ih.2 fun hrest => h ⟨hvalue, hrest⟩
        exact ⟨(k.name, value) :: before, key, v, after, by rw [hsplit]; rfl,
          List.forall_mem_cons.mpr ⟨hname, hbefore⟩, hkey, hv, hfound⟩

/-- **The identifier is the argument `name:`.** Let a form be read as a call. If no argument before
    `name:` has the keyword `name:` for its value, the form defines exactly what its argument
    `name:` is, if that is an atom and no keyword. Otherwise the first such value is taken for the
    keyword of an argument: if it belongs to the last keyword argument, the form defines the first
    positional argument, if that is an atom, and else it defines nothing. -/
theorem definedName?_argument {n : Node} {inv : Invocation} (h : Invocation.ofNode n = .ok inv) :
    (NameKept inv.arguments → ∀ x, definedName? n = some x ↔
      ∃ a, inv.argument? nameWord = some (.atom a) ∧ a.keyword? = none ∧ a.value = x) ∧
    (¬NameKept inv.arguments →
      ∃ before key value after, inv.arguments = before ++ (key, value) :: after ∧
        (∀ a ∈ before, a.1 ≠ nameWord) ∧ key ≠ nameWord ∧ value.keyword? = some nameWord ∧
        definedName? n = if after = [] then inv.remainder.head?.bind Node.word? else none) := by
  obtain ⟨p, hp, rfl⟩ := ((Invocation.ofNode_follows n).accepts inv).mp h
  have htail : n.tail = written p.pairs ++ p.remainder := by
    rw [Node.tail, hp.2, Phrase.nodes, List.drop_one, List.tail_cons]
  -- the arguments are written as keyword and value by turns, which is how the name is looked for
  obtain ⟨hkept, hlost⟩ := nameAmong_written p.pairs p.positional
  rw [definedName?, htail]
  refine ⟨fun hname x => ?_, hlost⟩
  have hfound : nameAmong (written p.pairs ++ p.remainder)
      = ((p.invocation n).argument? nameWord).bind Node.word? := by
    rw [hkept hname, Invocation.argument?, Option.bind_map]
    rfl
  rw [hfound, Option.bind_eq_some_iff]
  constructor
  · rintro ⟨value, hvalue, hx⟩
    obtain ⟨a, rfl, ha⟩ := Node.word?_eq_some_iff.mp hx
    exact ⟨a, hvalue, ha⟩
  · rintro ⟨a, hvalue, ha⟩
    exact ⟨.atom a, hvalue, Node.word?_eq_some_iff.mpr ⟨a, rfl, ha⟩⟩

/-- `(box w: h: name: x [y])`: a keyword before `name:` has a keyword for its value, and the form
    defines the argument `name:`. In `(box w: name: [y])` the value is the keyword `name:`, and what
    follows it is no atom. -/
theorem definedName?_argument_behind_keyword :
    let word (value : String) : Node := .atom (Atom.plain value .nowhere)
    let round (ns : List Node) : Node := .group .paren ns .nowhere .nowhere
    let kept := round [word "box", word "w:", word "h:", word "name:", word "x", round [word "y"]]
    let lost := round [word "box", word "w:", word "name:", round [word "y"]]
    (∃ inv, Invocation.ofNode kept = .ok inv ∧ NameKept inv.arguments ∧
      definedName? kept = some "x") ∧
    ∃ inv, Invocation.ofNode lost = .ok inv ∧ ¬NameKept inv.arguments ∧
      definedName? lost = none := by
  intro word round kept lost
  have hkept : Invocation.ofNode kept
      = .ok ⟨"box", kept, [("w", word "h:"), ("name", word "x")], [round [word "y"]]⟩ := rfl
  have hlost : Invocation.ofNode lost
      = .ok ⟨"box", lost, [("w", word "name:")], [round [word "y"]]⟩ := rfl
  -- in the first form the value `h:` is skipped with its keyword, in the second it is `name:`
  have hname : NameKept [("w", word "h:"), ("name", word "x")] := by decide
  have hvalue : ¬NameKept [("w", word "name:")] := by decide
  refine ⟨⟨_, hkept, hname, ?_⟩, _, hlost, hvalue, ?_⟩
  · exact ((definedName?_argument hkept).1 hname "x").mpr
      ⟨Atom.plain "x" .nowhere, rfl, by decide, rfl⟩
  · obtain ⟨before, key, value, after, -, -, -, -, hdefined⟩ :=
      (definedName?_argument hlost).2 hvalue
    rw [hdefined]
    split <;> rfl

/-- **A value is taken for a keyword.** The form `(box w: name: x)` has no argument `name:`, and
    still defines `x`, so that the reference `#x` is met. The form `(box w: name: name: x)` has the
    argument `name:`, and defines nothing. -/
theorem definedName?_value :
    let word (value : String) : Node := .atom (Atom.plain value .nowhere)
    let round (ns : List Node) : Node := .group .paren ns .nowhere .nowhere
    let unnamed := round [word "box", word "w:", word "name:", word "x"]
    let named := round [word "box", word "w:", word "name:", word "name:", word "x"]
    (∃ inv, Invocation.ofNode unnamed = .ok inv ∧ inv.argument? nameWord = none ∧
      definedName? unnamed = some "x" ∧
      (checkReferences [] [unnamed, word "#x"]).1.map Resolved.id = ["x"] ∧
      (checkReferences [] [unnamed, word "#x"]).2.length = 0) ∧
    ∃ inv, Invocation.ofNode named = .ok inv ∧ inv.argument? nameWord = some (word "x") ∧
      definedName? named = none := by
  intro word round unnamed named
  exact ⟨⟨_, rfl, rfl, rfl, by decide +kernel, by decide +kernel⟩, _, rfl, rfl, rfl⟩

end Formwork
