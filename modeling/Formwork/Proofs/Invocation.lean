import Mathlib.Data.List.Nodup
import Formwork.Invocation
import Formwork.Proofs.Reading

namespace Formwork

/-!
# The grammar of calls

A call is a group of an atom, keyword arguments under different names, and positional arguments, in
this order. The reader accepts the groups of this form and nothing else, and loses nothing of them
but the comments.

* `Invocation.Phrase` — what stands in a call, in the order in which it is written.
* `Invocation.argumentReading` and `Invocation.readArguments_written` — arguments are read from what
  they are written as, and from nothing else.
* `Invocation.Fault` — what can be wrong with a node, and what is reported of it then.
* `Invocation.ofNode_grammar` — a node is read exactly when it is written as a call. Otherwise there
  is one report, of the first thing that is wrong.
-/

/-! ### Keywords -/

/-- Whether an atom is the keyword with a name: `name:`, written without quotes. -/
def Atom.IsKeyword (a : Atom) (key : String) : Prop :=
  a.quoted = false ∧ key ≠ "" ∧ a.value = key ++ ":"

theorem Atom.keyword?_eq_some_iff {a : Atom} {key : String} :
    a.keyword? = some key ↔ a.IsKeyword key := by
  -- the name is read off the reversed text, so both conditions are put in terms of it
  have hvalue : a.value = key ++ ":" ↔ a.value.toList.reverse = ':' :: key.toList.reverse := by
    rw [← String.toList_inj, String.toList_append, List.reverse_eq_cons_iff, List.reverse_reverse]
    rfl
  have hname : key ≠ "" ↔ key.toList.reverse ≠ [] := by
    rw [Ne, Ne, List.reverse_eq_nil_iff, ← String.toList_inj]
    rfl
  unfold keyword? IsKeyword
  rw [hvalue, hname]
  cases hquoted : a.quoted with
  | true => simp
  | false =>
    simp only [Bool.false_eq_true, if_false, true_and]
    split
    case h_1 c cs hcs =>
      rw [hcs, Option.some_inj, List.cons.injEq, ← String.toList_inj, String.toList_ofList]
      constructor
      · intro h
        rw [← h, List.reverse_reverse]
        exact ⟨List.cons_ne_nil c cs, rfl, rfl⟩
      · rintro ⟨-, -, h⟩
        rw [h, List.reverse_reverse]
    case h_2 hother =>
      constructor
      · intro h
        cases h
      · rintro ⟨hne, h⟩
        obtain ⟨c, cs, hcs⟩ := List.exists_cons_of_ne_nil hne
        exact absurd (h.trans (congrArg _ hcs)) (hother c cs)

theorem Node.keyword?_eq_some_iff {n : Node} {key : String} :
    n.keyword? = some key ↔ ∃ a, n = .atom a ∧ a.IsKeyword key := by
  cases n <;> simp [Node.keyword?, Node.atom?, Atom.keyword?_eq_some_iff]

namespace Invocation

/-- A keyword as it is written. -/
structure Keyword where
  atom : Atom
  name : String
  isKeyword : atom.IsKeyword name

/-- Keyword arguments as they are written: a keyword and a node, one pair after another. -/
def written (pairs : List (Keyword × Node)) : List Node :=
  pairs.flatMap fun p => [.atom p.1.atom, p.2]

/-- The names of keyword arguments. -/
def names (pairs : List (Keyword × Node)) : List String := pairs.map fun p => p.1.name

/-- Keyword arguments as they are read. -/
def entries (pairs : List (Keyword × Node)) : List (String × Node) :=
  pairs.map fun p => (p.1.name, p.2)

/-- Whether no node is a keyword. -/
def Positional (ns : List Node) : Prop := ∀ a, .atom a ∈ ns → ∀ key, ¬a.IsKeyword key

/-- What stands in a call: the head, keyword arguments under different names, and then nodes that
    are no keywords. The node of a keyword argument may be anything, a keyword too. -/
structure Phrase where
  head : Atom
  pairs : List (Keyword × Node)
  remainder : List Node
  distinct : (names pairs).Nodup
  positional : Positional remainder

/-- The nodes of a call, in order. -/
def Phrase.nodes (p : Phrase) : List Node := .atom p.head :: (written p.pairs ++ p.remainder)

/-- The call of a group, read from what stands in it. -/
def Phrase.invocation (p : Phrase) (group : Node) : Invocation where
  name := p.head.value
  node := group
  arguments := entries p.pairs
  remainder := p.remainder

/-- A call written out again: its name, `key:` and the value of each keyword argument, and the
    positional arguments. -/
def print (inv : Invocation) : List Node :=
  .atom (Atom.plain inv.name inv.node.location) ::
    (inv.arguments.flatMap (fun a => [.atom (Atom.plain (a.1 ++ ":") inv.node.location), a.2]) ++
      inv.remainder)

/-! ### Reading arguments -/

@[simp] theorem written_nil : written [] = [] := rfl

@[simp] theorem written_cons (k : Keyword) (value : Node) (pairs : List (Keyword × Node)) :
    written ((k, value) :: pairs) = .atom k.atom :: value :: written pairs := rfl

@[simp] theorem names_cons (k : Keyword) (value : Node) (pairs : List (Keyword × Node)) :
    names ((k, value) :: pairs) = k.name :: names pairs := rfl

theorem Keyword.keyword?_eq (k : Keyword) : (Node.atom k.atom).keyword? = some k.name :=
  Node.keyword?_eq_some_iff.mpr ⟨k.atom, rfl, k.isKeyword⟩

/-- A node that is a keyword. -/
theorem exists_keyword {n : Node} {key : String} (h : n.keyword? = some key) :
    ∃ k : Keyword, n = .atom k.atom ∧ key = k.name := by
  obtain ⟨a, rfl, ha⟩ := Node.keyword?_eq_some_iff.mp h
  exact ⟨⟨a, key, ha⟩, rfl, rfl⟩

theorem positional_iff {ns : List Node} : Positional ns ↔ ∀ n ∈ ns, n.keyword? = none := by
  constructor
  · intro h n hn
    cases hkey : n.keyword? with
    | none => rfl
    | some key =>
      obtain ⟨a, rfl, ha⟩ := Node.keyword?_eq_some_iff.mp hkey
      exact absurd ha (h a hn key)
  · intro h a ha key hkey
    have hsome := Node.keyword?_eq_some_iff.mpr ⟨a, rfl, hkey⟩
    rw [h _ ha] at hsome
    cases hsome

/-- What can be wrong with the nodes after the head, when keyword arguments under the names `seen`
    have been read before them, and what is reported of it. -/
inductive ArgumentFault (seen : List String) : List Node → Report → Prop where
  /-- The last keyword has no value. -/
  | noValue (pairs : List (Keyword × Node)) {k : Keyword} (hdistinct : (seen ++ names pairs).Nodup) :
      ArgumentFault seen (written pairs ++ [.atom k.atom])
        (.atNode (.missingKeywordValue k.name) (.atom k.atom))
  /-- A name has been given before. -/
  | repeated (pairs : List (Keyword × Node)) {k : Keyword} {value : Node} {ns : List Node}
      (hdistinct : (seen ++ names pairs).Nodup) (hrepeated : k.name ∈ seen ++ names pairs) :
      ArgumentFault seen (written pairs ++ .atom k.atom :: value :: ns)
        (.atNode (.duplicateKeyword k.name) value)
  /-- A keyword comes after a positional argument. -/
  | late (pairs : List (Keyword × Node)) {n : Node} {ns ms : List Node} {k : Keyword}
      (hdistinct : (seen ++ names pairs).Nodup) (hpositional : Positional (n :: ns)) :
      ArgumentFault seen (written pairs ++ n :: ns ++ .atom k.atom :: ms)
        (.atNode (.keywordAfterPositional k.name) (.atom k.atom))

/-- A keyword argument more before what is wrong. -/
theorem ArgumentFault.cons {seen : List String} {k : Keyword} {value : Node} {ns : List Node}
    {report : Report} (h : ArgumentFault (seen ++ [k.name]) ns report) :
    ArgumentFault seen (.atom k.atom :: value :: ns) report := by
  cases h with
  | @noValue pairs k' hdistinct =>
    exact .noValue ((k, value) :: pairs) (by simpa using hdistinct)
  | @repeated pairs k' value' ns hdistinct hrepeated =>
    exact .repeated ((k, value) :: pairs) (by simpa using hdistinct)
      (by simpa using hrepeated)
  | @late pairs n ns ms k' hdistinct hpositional =>
    exact .late ((k, value) :: pairs) (by simpa using hdistinct) hpositional

/-- What reading arguments gives: arguments that are written so, or a report of what is wrong. -/
inductive ArgumentReading (seen : List (String × Node)) :
    List Node → Except Report (List (String × Node) × List Node) → Prop where
  | read (pairs : List (Keyword × Node)) {remainder : List Node}
      (hdistinct : (seen.map Prod.fst ++ names pairs).Nodup) (hpositional : Positional remainder) :
      ArgumentReading seen (written pairs ++ remainder) (.ok (seen ++ entries pairs, remainder))
  | refused {ns : List Node} {report : Report} (h : ArgumentFault (seen.map Prod.fst) ns report) :
      ArgumentReading seen ns (.error report)

/-- A keyword argument more before what is read. -/
theorem ArgumentReading.cons {seen : List (String × Node)} {k : Keyword} {value : Node}
    {ns : List Node} {read : Except Report (List (String × Node) × List Node)}
    (h : ArgumentReading (seen ++ [(k.name, value)]) ns read) :
    ArgumentReading seen (.atom k.atom :: value :: ns) read := by
  cases h with
  | @read pairs remainder hdistinct hpositional =>
    have hentries : seen ++ [(k.name, value)] ++ entries pairs
        = seen ++ entries ((k, value) :: pairs) := by
      rw [List.append_assoc]
      rfl
    rw [hentries]
    exact .read ((k, value) :: pairs) (by simpa using hdistinct) hpositional
  | refused h =>
    rw [List.map_append] at h
    exact .refused h.cons

/-- What follows the keyword arguments is positional, or there is a keyword in it that comes late. -/
theorem remainderReading {seen : List (String × Node)} {n : Node} (ns : List Node)
    (hseen : (seen.map Prod.fst ++ names []).Nodup) (hkey : n.keyword? = none) :
    ArgumentReading seen (n :: ns) ((readRemainder (n :: ns)).map fun remainder =>
      (seen, remainder)) := by
  unfold readRemainder
  split
  case h_1 key k hfound =>
    -- the node that is a keyword is not the first one
    obtain ⟨before, m, after, hsplit, hm, hbefore⟩ := List.findSome?_eq_some_iff.mp hfound
    obtain ⟨key', hkey', heq⟩ := Option.map_eq_some_iff.mp hm
    cases heq
    obtain ⟨k, rfl, rfl⟩ := exists_keyword hkey'
    cases before with
    | nil =>
      cases hsplit
      rw [hkey] at hkey'
      cases hkey'
    | cons first before =>
      rw [hsplit]
      have hpositional : Positional (first :: before) :=
        positional_iff.mpr fun n hn => Option.map_eq_none_iff.mp (hbefore n hn)
      exact .refused (.late [] hseen hpositional)
  case h_2 hnone =>
    have hpositional : Positional (n :: ns) := by
      rw [positional_iff]
      intro m hm
      exact Option.map_eq_none_iff.mp (List.findSome?_eq_none_iff.mp hnone m hm)
    have h := ArgumentReading.read [] hseen hpositional
    rwa [entries, List.map_nil, List.append_nil] at h

/-- **Reading arguments** gives what they are written as, or says what is wrong first. -/
theorem argumentReading (seen : List (String × Node)) (ns : List Node)
    (hseen : (seen.map Prod.fst).Nodup) : ArgumentReading seen ns (readArguments seen ns) := by
  have hstart : (seen.map Prod.fst ++ names []).Nodup := by
    rwa [names, List.map_nil, List.append_nil]
  -- one case for each way the reader goes on; only the last one reads an argument
  fun_induction readArguments seen ns with
  | case1 seen =>
    have h := ArgumentReading.read [] hstart (positional_iff.mpr (List.forall_mem_nil _))
    rwa [entries, List.map_nil, List.append_nil, written_nil, List.append_nil] at h
  | case2 seen n ns hkey => exact remainderReading ns hstart hkey
  | case3 seen n key hkey =>
    obtain ⟨k, rfl, rfl⟩ := exists_keyword hkey
    exact .refused (.noValue [] hstart)
  | case4 seen n key value ns hkey hrepeated =>
    obtain ⟨k, rfl, rfl⟩ := exists_keyword hkey
    refine .refused (.repeated [] hstart ?_)
    simpa [names] using hrepeated
  | case5 seen n key value ns hkey hfresh ih =>
    obtain ⟨k, rfl, rfl⟩ := exists_keyword hkey
    have hnew : k.name ∉ seen.map Prod.fst := by simpa using hfresh
    have hnext : ((seen ++ [(k.name, value)]).map Prod.fst).Nodup := by
      rw [List.map_append, List.map_singleton, ← List.concat_eq_append]
      exact hseen.concat hnew
    exact (ih hnext (by rwa [names, List.map_nil, List.append_nil])).cons

/-- Positional arguments are read as they are. -/
theorem readRemainder_of_positional {ns : List Node} (h : Positional ns) :
    readRemainder ns = .ok ns := by
  have hnone : (ns.findSome? fun n => n.keyword?.map fun key => (key, n)) = none := by
    rw [List.findSome?_eq_none_iff]
    exact fun n hn => Option.map_eq_none_iff.mpr (positional_iff.mp h n hn)
  unfold readRemainder
  rw [hnone]

/-- **What is written is read:** keyword arguments under different names, and positional ones. -/
theorem readArguments_written (pairs : List (Keyword × Node)) {seen : List (String × Node)}
    {remainder : List Node} (hdistinct : (seen.map Prod.fst ++ names pairs).Nodup)
    (hpositional : Positional remainder) :
    readArguments seen (written pairs ++ remainder) = .ok (seen ++ entries pairs, remainder) := by
  -- generalised over what has been read, which grows by an argument at each step
  induction pairs generalizing seen with
  | nil =>
    cases remainder with
    | nil => simp [readArguments, entries]
    | cons n ns =>
      have hn : n.keyword? = none := positional_iff.mp hpositional n List.mem_cons_self
      simp [readArguments, hn, readRemainder_of_positional hpositional, Except.map, entries]
  | cons p pairs ih =>
    obtain ⟨k, value⟩ := p
    have hfresh : k.name ∉ seen.map Prod.fst := by
      intro hmem
      exact (List.nodup_append.mp hdistinct).2.2 _ hmem _ List.mem_cons_self rfl
    have hnext : ((seen ++ [(k.name, value)]).map Prod.fst ++ names pairs).Nodup := by
      simpa using hdistinct
    have hnone : seen.any (·.1 = k.name) = false := by
      rw [List.any_eq_false]
      exact fun e he hkey => hfresh (List.mem_map.mpr ⟨e, he, of_decide_eq_true hkey⟩)
    rw [written_cons, List.cons_append, List.cons_append]
    unfold readArguments
    simp only [k.keyword?_eq, hnone, Bool.false_eq_true, if_false]
    rw [ih hnext, List.append_assoc]
    rfl

/-! ### Reading a call -/

/-- What can be wrong with a node that is read as a call, and what is reported of it. -/
inductive Fault : Node → Report → Prop where
  /-- It is no group. -/
  | notAList {n : Node} (hgroup : n.isGroup = false) : Fault n (.atNode .notAList n)
  /-- There is nothing in it but comments. -/
  | empty {n : Node} (hgroup : n.isGroup = true) (hexprs : n.exprs = []) :
      Fault n (.atNode .emptyInvocation n)
  /-- It starts with a group. -/
  | headNotAtom {n head : Node} {ns : List Node} (hexprs : n.exprs = head :: ns)
      (hhead : head.isGroup = true) : Fault n (.atNode .headNotAtom head)
  /-- Something is wrong with the arguments. -/
  | argument {n : Node} {head : Atom} {ns : List Node} {report : Report}
      (hexprs : n.exprs = .atom head :: ns) (hfault : ArgumentFault [] ns report) : Fault n report

/-- Whether a node is written as a call. -/
def Phrase.Of (p : Phrase) (n : Node) : Prop := n.isGroup = true ∧ n.exprs = p.nodes

/-- **A call is read** as what stands in it. -/
theorem Phrase.Of.ofNode_eq {p : Phrase} {n : Node} (h : p.Of n) :
    ofNode n = .ok (p.invocation n) := by
  have hread : readArguments [] (written p.pairs ++ p.remainder)
      = .ok (entries p.pairs, p.remainder) :=
    readArguments_written p.pairs p.distinct p.positional
  unfold ofNode
  simp only [h.1, Bool.not_true, Bool.false_eq_true, if_false, Node.head?, Node.tail, h.2,
    Phrase.nodes, List.head?_cons, Node.atom?, List.drop_one, List.tail_cons, hread, Except.map]
  rfl

/-- **A node is written as a call**, or what is wrong with it is reported. -/
theorem ofNode_cases (n : Node) :
    (∃ p : Phrase, p.Of n) ∨ ∃ report, Fault n report ∧ ofNode n = .error report := by
  unfold ofNode
  cases hgroup : n.isGroup with
  | false => exact .inr ⟨_, .notAList hgroup, rfl⟩
  | true =>
    simp only [Bool.not_true, Bool.false_eq_true, if_false, Node.head?, Node.tail]
    cases hexprs : n.exprs with
    | nil => exact .inr ⟨_, .empty hgroup hexprs, rfl⟩
    | cons head ns =>
      cases head with
      | comment c =>
        -- comments are looked past
        have hmem : Node.comment c ∈ n.exprs := hexprs ▸ List.mem_cons_self
        exact absurd (List.mem_filter.mp hmem).2 (by simp [Node.isComment])
      | group d cs l stop => exact .inr ⟨_, .headNotAtom hexprs rfl, rfl⟩
      | atom a =>
        have hreading := argumentReading [] ns List.nodup_nil
        simp only [List.head?_cons, Node.atom?, List.drop_one, List.tail_cons]
        generalize readArguments [] ns = read at hreading
        cases hreading with
        | @read pairs remainder hdistinct hpositional =>
          let p : Phrase := { head := a, pairs, remainder, distinct := hdistinct,
                              positional := hpositional }
          exact .inl ⟨p, hgroup, hexprs⟩
        | refused hfault => exact .inr ⟨_, .argument hexprs hfault, rfl⟩

/-- **Reading calls** follows their grammar. -/
theorem ofNode_follows (n : Node) :
    Follows (fun inv => ∃ p : Phrase, p.Of n ∧ inv = p.invocation n) (Fault n) (ofNode n) := by
  refine .of_cases ?_ ((ofNode_cases n).imp_left fun ⟨p, hp⟩ => ⟨_, p, hp, rfl⟩)
  rintro _ ⟨p, hp, rfl⟩
  exact hp.ofNode_eq

/-- So the keys of an invocation that is read are different. -/
theorem nodup_keys_of_ofNode {n : Node} {inv : Invocation} (h : ofNode n = .ok inv) :
    (inv.arguments.map Prod.fst).Nodup := by
  obtain ⟨p, -, rfl⟩ := ((ofNode_follows n).accepts inv).mp h
  have hkeys : (entries p.pairs).map Prod.fst = names p.pairs := List.map_map
  rw [Phrase.invocation, hkeys]
  exact p.distinct

/-! ### Writing a call out -/

/-- What is written out again is the same as what was read. -/
theorem Phrase.sameAll_print (p : Phrase) (n : Node) :
    Node.sameAll (p.invocation n).print p.nodes = true := by
  -- a list of nodes is compared with itself as the children of one group
  have hremainder : Node.sameAll p.remainder p.remainder = true := by
    have h := Node.same_refl (.group .paren p.remainder .nowhere .nowhere)
    rwa [Node.same, Bool.and_eq_true, decide_eq_true_eq, eq_self, true_and] at h
  have harguments : ∀ pairs : List (Keyword × Node),
      Node.sameAll
        ((entries pairs).flatMap (fun a => [.atom (Atom.plain (a.1 ++ ":") n.location), a.2]) ++
          p.remainder)
        (written pairs ++ p.remainder) = true := by
    intro pairs
    induction pairs with
    | nil => exact hremainder
    | cons argument pairs ih =>
      obtain ⟨k, value⟩ := argument
      have hkey : k.atom.value = k.name ++ ":" := k.isKeyword.2.2
      simpa [entries, Node.sameAll, Node.same, Atom.plain, hkey, Node.same_refl] using ih
  simp only [print, nodes, Node.sameAll, Node.same, Atom.plain, invocation, decide_true,
    Bool.true_and]
  exact harguments p.pairs

/-- What reading a node as a call comes to: the call that is written there, or one report of what is
    wrong. -/
structure ReadsCalls (n : Node) : Prop extends
    Follows (fun inv => ∃ p : Phrase, p.Of n ∧ inv = p.invocation n) (Fault n) (ofNode n) where
  /-- A call that is written out again is the same as the nodes in it that are no comments. -/
  prints : ∀ inv, ofNode n = .ok inv → Node.sameAll inv.print n.exprs = true

/-- **The grammar of calls.** Every node is read as a call exactly when it is a group of an atom,
    keyword arguments under different names, and nodes that are no keywords. Otherwise there is
    exactly one report. -/
theorem ofNode_grammar (n : Node) : ReadsCalls n := by
  refine { ofNode_follows n with prints := fun inv h => ?_ }
  obtain ⟨p, hp, rfl⟩ := ((ofNode_follows n).accepts inv).mp h
  rw [hp.2]
  exact p.sameAll_print n

end Invocation

end Formwork
