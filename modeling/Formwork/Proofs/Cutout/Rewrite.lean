import Formwork.Cutout
import Formwork.Proofs.Replay

namespace Formwork

/-!
# Cutting out as a recursive rewrite

What a cutout does to the events of nodes, said of the nodes themselves: the children of a group
are rewritten in order, a group whose head the cutter wants is handed over when it has been rebuilt,
and the answer is rewritten in the place of the group.

* `Cutter.rewrite` — the recursive rewrite. As in `Cutout.feed`, `levels` is the number of answers
  that may be going through at once.
* `Cutter.OnNodes` — what is asked of a cutter: it collects into fresh builders, and its answers are
  replays of nodes.
* `rewrite_plain` — plain nodes are rewritten to plain nodes.
* `Settles.rewrite` — what a run does to the state of the cutter.
-/

variable {σ : Type}

namespace Cutter

/-! ### The rewrite -/

/-- Asks about a group with the given head. A group that does not start with an atom has no head,
    and is not asked about. -/
def ask (cutter : Cutter σ Builder) (s : σ) : Option String → σ × Bool
  | none => (s, false)
  | some head => ((cutter.cut s head).1, (cutter.cut s head).2.isSome)

/-- Hands over a rebuilt group, and rewrites what takes its place by `replay`. -/
def replace (cutter : Cutter σ Builder) (replay : List Node → σ → Option (σ × List Node))
    (group : Node) (s : σ) : Option (σ × List Node) :=
  match cutter.paste s (Builder.holding group) with
  | (s, none) => some (s, [])
  | (s, some answer) => (replay (Builder.build answer) s).map fun r => (cutter.pasted r.1, r.2)

mutual

/-- Rewrites a node. -/
def rewriteNode (cutter : Cutter σ Builder) (replay : List Node → σ → Option (σ × List Node)) :
    Node → σ → Option (σ × List Node)
  | .atom a, s => some (s, [.atom a])
  | .comment c, s => some (s, [.comment c])
  | .group d cs l stop, s =>
    let asked := cutter.ask s (Node.group d cs l stop).headName?
    (rewriteAll cutter replay cs asked.1).bind fun r =>
      if asked.2 then
        cutter.replace replay (.group d r.2 l stop) r.1
      else
        some (r.1, [.group d r.2 l stop])

/-- Rewrites nodes, one after another. -/
def rewriteAll (cutter : Cutter σ Builder) (replay : List Node → σ → Option (σ × List Node)) :
    List Node → σ → Option (σ × List Node)
  | [], s => some (s, [])
  | n :: ns, s =>
    (rewriteNode cutter replay n s).bind fun r =>
      (rewriteAll cutter replay ns r.1).map fun q => (q.1, r.2 ++ q.2)

end

/-- Rewrites nodes, if no more than `levels` answers are ever going through at once. -/
def rewrite (cutter : Cutter σ Builder) : Nat → List Node → σ → Option (σ × List Node)
  | 0 => cutter.rewriteAll fun _ _ => none
  | levels + 1 => cutter.rewriteAll (rewrite cutter levels)

/-- What is asked of a cutter: it collects into fresh builders, and answers with replays of
    nodes. -/
structure OnNodes (cutter : Cutter σ Builder) : Prop where
  fresh : ∀ s head b, (cutter.cut s head).2 = some b → b = Builder.empty
  replays : ∀ s b es, (cutter.paste s b).2 = some es → ∃ ns, Event.Replays es ns

/-- Nothing takes the place of a group without an answer. -/
theorem replace_of_none {cutter : Cutter σ Builder}
    {replay : List Node → σ → Option (σ × List Node)} {g : Node} {s s' : σ}
    (h : cutter.paste s (Builder.holding g) = (s', none)) :
    cutter.replace replay g s = some (s', []) := by
  rw [replace, h]

/-- The rewritten answer takes the place of a group. -/
theorem replace_of_some {cutter : Cutter σ Builder}
    {replay : List Node → σ → Option (σ × List Node)} {g : Node} {s s' : σ} {answer : List Event}
    (h : cutter.paste s (Builder.holding g) = (s', some answer)) :
    cutter.replace replay g s
      = (replay (Builder.build answer) s').map fun r => (cutter.pasted r.1, r.2) := by
  rw [replace, h]

/-! ### Rewriting lists -/

section

variable (cutter : Cutter σ Builder) (replay : List Node → σ → Option (σ × List Node))

/-- Atoms are left alone. -/
@[simp] theorem rewriteNode_atom (a : Atom) (s : σ) :
    cutter.rewriteNode replay (.atom a) s = some (s, [.atom a]) := by
  rw [rewriteNode]

/-- Rewriting a single node. -/
@[simp] theorem rewriteAll_singleton (n : Node) (s : σ) :
    cutter.rewriteAll replay [n] s = cutter.rewriteNode replay n s := by
  simp only [rewriteAll, Option.map_some, List.append_nil]
  cases cutter.rewriteNode replay n s <;> rfl

/-- Comments are left alone. -/
theorem rewriteAll_comments (pc : List Comment) (ns : List Node) (s : σ) :
    cutter.rewriteAll replay (pc.map .comment ++ ns) s
      = (cutter.rewriteAll replay ns s).map fun r => (r.1, pc.map .comment ++ r.2) := by
  induction pc with
  | nil => simp
  | cons c pc ih => simp [rewriteAll, rewriteNode, ih, Function.comp_def]

/-! ### Plain nodes -/

variable {cutter replay}

/-- Whether `replay` makes plain nodes. -/
def MakesPlain (replay : List Node → σ → Option (σ × List Node)) : Prop :=
  ∀ ns s r, Node.plainAll ns = ns → replay ns s = some r → Node.plainAll r.2 = r.2

/-- The nodes of an answer are plain. -/
theorem OnNodes.plainAll_build (h : cutter.OnNodes) {s : σ} {b : Builder} {es : List Event}
    (hes : (cutter.paste s b).2 = some es) :
    Node.plainAll (Builder.build es) = Builder.build es := by
  obtain ⟨ns, hns⟩ := h.replays s b es hes
  rw [Builder.build_of_replays hns, Node.plainAll_plainAll]

/-- What takes the place of a group is plain. -/
theorem replace_plain (h : cutter.OnNodes) (hr : MakesPlain replay) {g : Node} {s : σ}
    {r : σ × List Node} (hg : cutter.replace replay g s = some r) : Node.plainAll r.2 = r.2 := by
  unfold replace at hg
  split at hg
  case h_1 => cases hg; rfl
  case h_2 s' answer hp =>
    obtain ⟨q, hq, rfl⟩ := Option.map_eq_some_iff.mp hg
    exact hr (Builder.build answer) s' q (h.plainAll_build (by rw [hp])) hq

mutual

/-- A plain node is rewritten to plain nodes. -/
theorem rewriteNode_plain (h : cutter.OnNodes) (hr : MakesPlain replay) :
    ∀ (n : Node) (s : σ) (r : σ × List Node), n.plain = n →
      cutter.rewriteNode replay n s = some r → Node.plainAll r.2 = r.2
  | .atom a, s, r, hn, hs => by
    cases hs
    rw [Node.plainAll, hn, Node.plainAll]
  | .comment c, s, r, hn, hs => by
    cases hs
    rfl
  | .group d cs l stop, s, r, hn, hs => by
    obtain ⟨q, hq, hs⟩ := Option.bind_eq_some_iff.mp hs
    have hcs : Node.plainAll cs = cs := by simpa [Node.plain] using hn
    have hq' := rewriteAll_plain h hr cs _ q hcs hq
    -- a form is replaced as its contents came out, and any other group keeps them
    split at hs
    · exact replace_plain h hr hs
    · cases hs
      simp [Node.plainAll, Node.plain, hq']

/-- Plain nodes are rewritten to plain nodes. -/
theorem rewriteAll_plain (h : cutter.OnNodes) (hr : MakesPlain replay) :
    ∀ (ns : List Node) (s : σ) (r : σ × List Node), Node.plainAll ns = ns →
      cutter.rewriteAll replay ns s = some r → Node.plainAll r.2 = r.2
  | [], s, r, _, hs => by
    cases hs
    rfl
  | n :: ns, s, r, hns, hs => by
    rw [Node.plainAll, List.cons.injEq] at hns
    obtain ⟨q, hq, hs⟩ := Option.bind_eq_some_iff.mp hs
    obtain ⟨p, hp, rfl⟩ := Option.map_eq_some_iff.mp hs
    rw [Node.plainAll_append, rewriteNode_plain h hr n s q hns.1 hq,
      rewriteAll_plain h hr ns q.1 p hns.2 hp]

end

/-- Rewriting plain nodes gives plain nodes, whatever the number of levels. -/
theorem rewrite_plain (h : cutter.OnNodes) (levels : Nat) : MakesPlain (cutter.rewrite levels) := by
  induction levels with
  | zero => exact rewriteAll_plain h (by simp [MakesPlain])
  | succ levels ih => exact rewriteAll_plain h ih

end

/-! ### What a run does to the state -/

/-- Whether what happens to the state, from being asked about a head or handed a group until the
    answer has gone through, stays in a relation that holds of one run after another. -/
structure Settles (cutter : Cutter σ Builder) (Rel : σ → σ → Prop) : Prop where
  refl : ∀ s, Rel s s
  trans : ∀ s s' s'', Rel s s' → Rel s' s'' → Rel s s''
  cut : ∀ s head, Rel s (cutter.cut s head).1
  refused : ∀ s b, (cutter.paste s b).2 = none → Rel s (cutter.paste s b).1
  answered : ∀ s b s', (cutter.paste s b).2.isSome → Rel (cutter.paste s b).1 s' →
    Rel s (cutter.pasted s')

/-- Whether what `replay` does to the state is in a relation. -/
def SettlesOn (Rel : σ → σ → Prop) (replay : List Node → σ → Option (σ × List Node)) : Prop :=
  ∀ ns s r, replay ns s = some r → Rel s r.1

section

variable {cutter : Cutter σ Builder} {replay : List Node → σ → Option (σ × List Node)}
  {Rel : σ → σ → Prop}

/-- Handing over a group. -/
theorem Settles.replace (h : cutter.Settles Rel) (hr : SettlesOn Rel replay) {g : Node} {s : σ}
    {r : σ × List Node} (hg : cutter.replace replay g s = some r) : Rel s r.1 := by
  have hrefused := h.refused s (Builder.holding g)
  have hanswered := h.answered s (Builder.holding g)
  unfold Cutter.replace at hg
  split at hg
  case h_1 s' hp =>
    cases hg
    rw [hp] at hrefused
    exact hrefused rfl
  case h_2 s' answer hp =>
    obtain ⟨q, hq, rfl⟩ := Option.map_eq_some_iff.mp hg
    rw [hp] at hanswered
    exact hanswered _ rfl (hr _ _ q hq)

mutual

theorem Settles.rewriteNode (h : cutter.Settles Rel) (hr : SettlesOn Rel replay) :
    ∀ (n : Node) (s : σ) (r : σ × List Node), cutter.rewriteNode replay n s = some r → Rel s r.1
  | .atom a, s, r, hs => by
    cases hs
    exact h.refl s
  | .comment c, s, r, hs => by
    cases hs
    exact h.refl s
  | .group d cs l stop, s, r, hs => by
    obtain ⟨q, hq, hs⟩ := Option.bind_eq_some_iff.mp hs
    -- the head is asked about, then the contents settle, and the form last
    have hask : Rel s (cutter.ask s (Node.group d cs l stop).headName?).1 := by
      cases (Node.group d cs l stop).headName? with
      | none => exact h.refl s
      | some head => exact h.cut s head
    have hinside := h.trans _ _ _ hask (Settles.rewriteAll h hr cs _ q hq)
    split at hs
    · exact h.trans _ _ _ hinside (h.replace hr hs)
    · cases hs
      exact hinside

/-- Rewriting nodes, one after another. -/
theorem Settles.rewriteAll (h : cutter.Settles Rel) (hr : SettlesOn Rel replay) :
    SettlesOn Rel (cutter.rewriteAll replay)
  | [], s, r, hs => by
    cases hs
    exact h.refl s
  | n :: ns, s, r, hs => by
    obtain ⟨q, hq, hs⟩ := Option.bind_eq_some_iff.mp hs
    obtain ⟨p, hp, rfl⟩ := Option.map_eq_some_iff.mp hs
    exact h.trans _ _ _ (Settles.rewriteNode h hr n s q hq) (Settles.rewriteAll h hr ns _ p hp)

end

/-- What rewriting does to the state is in the relation, whatever the number of levels. -/
theorem Settles.rewrite (h : cutter.Settles Rel) (levels : Nat) :
    SettlesOn Rel (cutter.rewrite levels) := by
  induction levels with
  | zero => exact h.rewriteAll (by simp [SettlesOn])
  | succ levels ih => exact h.rewriteAll ih

/-- A group that starts with an atom has the same head when its children have been rewritten. -/
theorem headName?_rewriteAll {cs : List Node} {s : σ} {r : σ × List Node}
    (hr : cutter.rewriteAll replay cs s = some r) {d : Delim} {l stop : Location} {head : String}
    (hhead : (Node.group d cs l stop).headName? = some head) :
    (Node.group d r.2 l stop).headName? = some head := by
  induction cs generalizing s r with
  | nil => cases hhead
  | cons n cs ih =>
    obtain ⟨q, hq, hr⟩ := Option.bind_eq_some_iff.mp hr
    obtain ⟨p, hp, rfl⟩ := Option.map_eq_some_iff.mp hr
    -- the head is the first node that is no comment, and atoms and comments come out as they are
    cases n with
    | comment c =>
      cases hq
      exact ih (r := p) hp hhead
    | atom a =>
      cases hq
      exact hhead
    | group => cases hhead

end

end Cutter

end Formwork
