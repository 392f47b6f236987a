import Formwork.Proofs.Cutout.Calls
import Formwork.Proofs.Expander.Ends
import Formwork.Proofs.Invocation

namespace Formwork

/-!
# Made names

`unique-name` joins a stem and a number. Whatever the stem is, the number can be read back, because
it is what stands behind the last hyphen. The numbers are counted on by every invocation that is
expanded, in one use of an expander and over all uses after it, so no name is made twice.

* `UniqueName.numberOf_nameText` — the number of a made name.
* `Expander.callsInTurn` — what the cutter is asked and answers while lists of nodes are expanded in
  turn.
* `Expander.numberOf_callsInTurn` — the names that are made on the way are numbered on, so no name
  is made twice (`Expander.madeNames_distinct`).
-/

/-! ### Reading the number back -/

namespace UniqueName

/-- The number behind the last hyphen of a made name. -/
def numberOf (name : String) : Nat :=
  Nat.ofDigitChars 10 ((name.toList.reverse.drop 1).takeWhile (· ≠ '-')).reverse 0

theorem numberOf_nameText (stem : String) (number : Nat) :
    numberOf (nameText stem number) = number := by
  have hdigits : ∀ c ∈ (Nat.toDigits 10 number).reverse, decide (c ≠ '-') = true := by
    intro c hc
    have hdigit := Nat.isDigit_of_mem_toDigits (by decide) (by decide) (List.mem_reverse.mp hc)
    exact decide_eq_true fun hhyphen => absurd (hhyphen ▸ hdigit) (by decide)
  have hname : (nameText stem number).toList
      = '*' :: stem.toList ++ '-' :: Nat.toDigits 10 number ++ ['*'] := by
    simp [nameText]
    rfl
  -- read backwards, the star comes first and then the digits, and the next hyphen ends them
  have hreversed : (nameText stem number).toList.reverse.drop 1
      = (Nat.toDigits 10 number).reverse ++ '-' :: (stem.toList.reverse ++ ['*']) := by
    rw [hname]
    simp
  have hbehind : ((nameText stem number).toList.reverse.drop 1).takeWhile (· ≠ '-')
      = (Nat.toDigits 10 number).reverse := by
    rw [hreversed, List.takeWhile_append_of_pos hdigits]
    simp
  rw [numberOf, hbehind, List.reverse_reverse, Nat.ofDigitChars_toDigits (by decide) (by decide)]

end UniqueName

/-- The head of a call is the name of the invocation that it is read as. -/
theorem Invocation.headName?_of_ofNode {n : Node} {inv : Invocation} (h : ofNode n = .ok inv) :
    n.headName? = some inv.name := by
  obtain ⟨p, hp, rfl⟩ := ((ofNode_follows n).accepts inv).mp h
  rw [Node.headName?, Node.head?, hp.2]
  rfl

/-- The values of the atoms among events. -/
def Event.values (es : List Event) : List String :=
  es.filterMap fun
    | atom value => some value
    | _ => none

namespace Expander

/-! ### The names among the calls -/

/-- Whether a group that is handed over is an invocation of the rule that makes names. -/
def makesName (x : Expander) (b : Builder) : Bool :=
  match (b.node?.bind Node.headName?).bind x.rule? with
  | some .uniqueName => true
  | _ => false

/-- The atoms that take the place of such groups, in the order in which they are made. -/
def madeNames (x : Expander) (calls : List (Call Builder)) : List String :=
  calls.flatMap fun
    | .paste b (some answer) => if x.makesName b then Event.values answer else []
    | _ => []

theorem madeNames_append (x : Expander) (xs ys : List (Call Builder)) :
    x.madeNames (xs ++ ys) = x.madeNames xs ++ x.madeNames ys := List.flatMap_append

theorem madeNames_congr {x y : Expander} (h : x.rules = y.rules) : x.madeNames = y.madeNames := by
  have hrule : x.rule? = y.rule? := by
    unfold rule?
    rw [h]
  unfold madeNames makesName
  rw [hrule]

theorem makesName_eq {x : Expander} {b : Builder} {rule : Rule}
    (h : (b.node?.bind Node.headName?).bind x.rule? = some rule) :
    x.makesName b = decide (rule.names = 1) := by
  unfold makesName
  rw [h]
  cases rule <;> rfl

/-- **What is made when a group is handed over**: nothing, or one name with the next number. -/
theorem madeNames_paste (x : Expander) (b : Builder) :
    let names := x.madeNames [.paste b (cutter.paste x b).2]
    names.map UniqueName.numberOf = List.range' (x.made + 1) names.length ∧
      (cutter.paste x b).1.made = x.made + names.length ∧ (cutter.paste x b).1.rules = x.rules := by
  -- a name is made only where a rule is called; whatever is refused makes none
  obtain hp | ⟨n, report, -, hp⟩ | ⟨inv, rule, hread, hfound, hp | ⟨-, hp⟩⟩ := x.paste_layers b <;>
    rw [hp]
  · exact ⟨rfl, rfl, rfl⟩
  · exact ⟨rfl, rfl, rfl⟩
  · exact ⟨rfl, rfl, rfl⟩
  · obtain ⟨n, hn, hread⟩ := Option.map_eq_some_iff.mp hread
    have hmakes : x.makesName b = decide (rule.names = 1) := by
      refine makesName_eq ?_
      rw [hn, Option.bind_some, Invocation.headName?_of_ofNode hread, Option.bind_some, hfound]
    have hnames : x.madeNames [.paste b (some (rule.expand (x.made + 1) inv).events)]
        = if rule.names = 1 then Event.values (rule.expand (x.made + 1) inv).events else [] := by
      simp only [madeNames, List.flatMap_singleton, hmakes, decide_eq_true_eq]
    rw [hnames]
    cases rule with
    | concat | template => exact ⟨rfl, rfl, rfl⟩
    | uniqueName =>
      have hnumber := UniqueName.numberOf_nameText (UniqueName.stem inv).1 (x.made + 1)
      exact ⟨congrArg (fun number => [number]) hnumber, rfl, rfl⟩

/-- The names among calls that follow each other are numbered on. -/
theorem numbers_append {first : Nat} {xs ys : List String}
    (hxs : xs.map UniqueName.numberOf = List.range' (first + 1) xs.length)
    (hys : ys.map UniqueName.numberOf = List.range' (first + xs.length + 1) ys.length) :
    (xs ++ ys).map UniqueName.numberOf = List.range' (first + 1) (xs ++ ys).length := by
  rw [List.map_append, hxs, hys, List.length_append, ← List.range'_append_1, Nat.add_right_comm]

/-- What is written down in a run that starts with `x` are names with the numbers after those that
    `x` has made. -/
theorem keeps_numbers (x : Expander) :
    cutter.logged.Keeps fun s =>
      (x.madeNames s.2).map UniqueName.numberOf
          = List.range' (x.made + 1) (x.madeNames s.2).length ∧
        s.1.made = x.made + (x.madeNames s.2).length ∧ s.1.rules = x.rules where
  cut s head hs := by
    have hnames : x.madeNames (s.2 ++ [.cut head]) = x.madeNames s.2 :=
      (x.madeNames_append _ _).trans (List.append_nil _)
    simp only [Cutter.logged, hnames]
    exact hs
  pasted s hs := by
    have hnames : x.madeNames (s.2 ++ [.pasted]) = x.madeNames s.2 :=
      (x.madeNames_append _ _).trans (List.append_nil _)
    simp only [Cutter.logged, hnames]
    exact hs
  paste s b hs := by
    obtain ⟨hnumbers, hmade, hrules⟩ := hs
    -- the call goes on counting where the calls before it stopped
    obtain ⟨hnext, hmore, hsame⟩ := s.1.madeNames_paste b
    rw [madeNames_congr hrules] at hnext hmore
    rw [hmade] at hnext hmore
    refine ⟨?_, ?_, hsame.trans hrules⟩
    · simp only [Cutter.logged, madeNames_append]
      exact numbers_append hnumbers hnext
    · simp only [Cutter.logged, madeNames_append, List.length_append]
      exact hmore.trans (Nat.add_assoc _ _ _)

/-! ### The names of runs -/

/-- What the cutter is asked and answers while nodes are expanded. -/
def calls (x : Expander) (ns : List Node) : List (Call Builder) :=
  ((cutter.logged.run x.rules.length (x, []) (Node.eventsAll ns)).map fun r => r.1.2).getD []

/-- What the cutter is asked and answers while lists of nodes are expanded in turn. -/
def callsInTurn (x : Expander) : List (List Node) → List (Call Builder)
  | [] => []
  | ns :: nss => x.calls ns ++ (x.expand ns).1.callsInTurn nss

/-- The calls are those of the run that expands the nodes. -/
theorem Sound.run_logged {x : Expander} (h : x.Sound) (ns : List Node) :
    cutter.logged.run x.rules.length (x, []) (Node.eventsAll ns)
      = some (((x.expand ns).1, x.calls ns), (x.expand ns).2) := by
  obtain ⟨c, hc⟩ := h.exists_feed (Node.eventsAll ns) (Nat.le_add_right _ _)
  have hrun : cutter.run x.rules.length x (Node.eventsAll ns) = some (x.expand ns) := by
    rw [expand, Cutter.run, hc]
    rfl
  have hsame := cutter.run_logged x.rules.length (x, []) (Node.eventsAll ns)
  rw [hrun] at hsame
  obtain ⟨r, hr, hunlog⟩ := Option.map_eq_some_iff.mp hsame
  have hcalls : x.calls ns = r.1.2 := by rw [calls, hr]; rfl
  rw [hr, hcalls, ← hunlog]
  rfl

/-- The names that are made in one run are numbered on. -/
theorem Sound.numberOf_calls {x : Expander} (h : x.Sound) (ns : List Node) :
    (x.madeNames (x.calls ns)).map UniqueName.numberOf
        = List.range' (x.made + 1) (x.madeNames (x.calls ns)).length ∧
      (x.expand ns).1.made = x.made + (x.madeNames (x.calls ns)).length ∧
      (x.expand ns).1.rules = x.rules := by
  obtain ⟨c, hc, hlast⟩ := Option.map_eq_some_iff.mp (h.run_logged ns)
  have hstate : c.state = ((x.expand ns).1, x.calls ns) := congrArg Prod.fst hlast
  have hkept := (keeps_numbers x).leads (Cutout.feed_leads hc []) ⟨rfl, rfl, rfl⟩
  rwa [hstate] at hkept

/-- The names that are made in runs one after another are numbered on. -/
theorem numberOf_callsInTurn {maxDepth : Nat} {x : Expander} (hx : Usable maxDepth x)
    (nss : List (List Node)) :
    (x.madeNames (x.callsInTurn nss)).map UniqueName.numberOf
      = List.range' (x.made + 1) (x.madeNames (x.callsInTurn nss)).length := by
  induction nss generalizing x with
  | nil => rfl
  | cons ns nss ih =>
    obtain ⟨hnumbers, hmade, hrules⟩ := (sound_of_idle hx.idle.1).numberOf_calls ns
    have hrest := ih (hx.expand ns)
    rw [madeNames_congr hrules, hmade] at hrest
    rw [callsInTurn, madeNames_append]
    exact numbers_append hnumbers hrest

/-- **No name is made twice.** However often a usable expander is used, the atoms that take the
    place of invocations of the rule that makes names have different values, whatever the stems are.
    What the cutter is asked and answers is what it is in the run of each use. -/
theorem madeNames_distinct {maxDepth : Nat} {x : Expander} (hx : Usable maxDepth x) :
    (∀ ns, cutter.logged.run x.rules.length (x, []) (Node.eventsAll ns)
        = some (((x.expand ns).1, x.calls ns), (x.expand ns).2)) ∧
      ∀ nss, (x.madeNames (x.callsInTurn nss)).Nodup := by
  refine ⟨(sound_of_idle hx.idle.1).run_logged, fun nss => ?_⟩
  have hnumbers : ((x.madeNames (x.callsInTurn nss)).map UniqueName.numberOf).Nodup := by
    rw [numberOf_callsInTurn hx nss]
    exact List.nodup_range'
  exact hnumbers.of_map

/-- `(unique-name stem)`, with several nodes or none for the stem. -/
def nameOf (stem : List Node) : Node :=
  .group .paren (.atom (Atom.plain "unique-name" .nowhere) :: stem) .nowhere .nowhere

/-- A stem that looks like the end of a made name, one that is no atom, and in another use none at
    all, whose name is the next stem. -/
theorem madeNames_distinct_stems :
    let x := ({} : Expander).register .uniqueName
    let uses := [[nameOf [.atom (Atom.plain "a-1*" .nowhere)], nameOf [callOf "b"]],
      [nameOf [nameOf []]]]
    Usable 128 x ∧ x.madeNames (x.callsInTurn uses)
        = ["*a-1*-1*", "*unique-name-2*", "*unique-name-3*", "**unique-name-3*-4*"] ∧
      (x.madeNames (x.callsInTurn uses)).Nodup := by
  intro x uses
  have hx : Usable 128 x := .register .new _
  exact ⟨hx, by decide +kernel, (madeNames_distinct hx).2 uses⟩

end Expander

end Formwork
