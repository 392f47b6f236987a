import Formwork.Proofs.Cutout.Cutters
import Formwork.Proofs.Cutout.Views

namespace Formwork

/-!
# The calls of a cutter

A cutter that keeps a log shows which calls a run makes, in which order and with which arguments.
They are those of the rewrite, because a run of the logging cutter is its rewrite.

* `Cutter.logged` — a cutter that does the same and writes its calls down.
* `Cutter.run_logged` — its runs are those of the cutter, whatever events go through.
* `Cutter.rewrite_askOnce` — the cutter is asked once about each group with an atom for its head, of
  the nodes that the rewrite starts with and of every answer.
* `Cutter.run_eq_rewrite` — the whole behaviour of a cutout on nodes.
-/

variable {σ β : Type}

/-- A call of a cutter. -/
inductive Call (β : Type) where
  /-- The cutter was asked about a group with this head. -/
  | cut (head : String)
  /-- The cutter was handed this buffer, and gave this answer. -/
  | paste (buffer : β) (answer : Option (List Event))
  /-- The cutter was told that its answer has gone through. -/
  | pasted

namespace Call

/-- The heads that a cutter was asked about, in order. -/
def heads (calls : List (Call β)) : List String :=
  calls.filterMap fun
    | cut head => some head
    | _ => none

/-- The nodes that a cutter answered with, in order. -/
def answers (calls : List (Call β)) : List (List Node) :=
  calls.filterMap fun
    | paste _ answer => answer.map Builder.build
    | _ => none

@[simp] theorem heads_append (xs ys : List (Call β)) : heads (xs ++ ys) = heads xs ++ heads ys :=
  List.filterMap_append

@[simp] theorem answers_append (xs ys : List (Call β)) :
    answers (xs ++ ys) = answers xs ++ answers ys :=
  List.filterMap_append

end Call

namespace Cutter

/-! ### Keeping a log -/

/-- The cutter that does the same and writes down its calls, in the order in which they come. -/
def logged (cutter : Cutter σ β) : Cutter (σ × List (Call β)) β where
  cut s head := (((cutter.cut s.1 head).1, s.2 ++ [.cut head]), (cutter.cut s.1 head).2)
  paste s b :=
    (((cutter.paste s.1 b).1, s.2 ++ [.paste b (cutter.paste s.1 b).2]), (cutter.paste s.1 b).2)
  pasted s := (cutter.pasted s.1, s.2 ++ [.pasted])

/-- A cutter of nodes is one with a log too, as the log only grows. -/
theorem OnNodes.logged {cutter : Cutter σ Builder} (h : cutter.OnNodes) : cutter.logged.OnNodes :=
  ⟨fun s head b hb => h.fresh s.1 head b hb, fun s b es hes => h.replays s.1 b es hes⟩

/-- A result without the log. -/
def unlog {γ : Type} (r : (σ × List (Call β)) × γ) : σ × γ := (r.1.1, r.2)

/-- The cutter does what the one with the log does, whose log is not seen. -/
theorem logged_shows (cutter : Cutter σ β) : cutter.logged.Shows Prod.fst cutter :=
  ⟨fun _ _ => rfl, fun _ _ => rfl, fun _ => rfl⟩

theorem ask_logged (cutter : Cutter σ Builder) (s : σ × List (Call Builder))
    (head : Option String) :
    cutter.logged.ask s head
      = (((cutter.ask s.1 head).1, s.2 ++ (head.map Call.cut).toList),
          (cutter.ask s.1 head).2) := by
  cases head <;> simp [ask, logged]

/-- A rewrite ends in the same nodes and in the same state with a log and without. -/
theorem rewrite_logged (cutter : Cutter σ Builder) (levels : Nat) (ns : List Node)
    (s : σ × List (Call Builder)) :
    (cutter.logged.rewrite levels ns s).map unlog = cutter.rewrite levels ns s.1 :=
  ((logged_shows cutter).rewrite levels ns s).symm

/-- A run ends in the same state with a log and without, and passes on the same. -/
theorem run_logged [Sink β] (cutter : Cutter σ β) (levels : Nat) (s : σ × List (Call β))
    (es : List Event) : (cutter.logged.run levels s es).map unlog = cutter.run levels s.1 es :=
  ((logged_shows cutter).run levels s es).symm

end Cutter

/-! ### One question for each group -/

namespace Node

/-- The heads of the groups among and inside nodes that start with an atom. -/
def headNames (ns : List Node) : List String := (ns.flatMap preorder).filterMap headName?

@[simp] theorem headNames_cons (n : Node) (ns : List Node) :
    headNames (n :: ns) = n.preorder.filterMap headName? ++ headNames ns := by
  simp [headNames]

/-- The heads of a group are its own and those inside it. -/
theorem filterMap_preorder_group (d : Delim) (cs : List Node) (l stop : Location) :
    (Node.group d cs l stop).preorder.filterMap headName?
      = (Node.group d cs l stop).headName?.toList ++ headNames cs := by
  rw [preorder_group, List.filterMap_cons, headNames]
  cases (Node.group d cs l stop).headName? <;> rfl

end Node

namespace Cutter

/-- Whether the calls ask once about each group with an atom for its head, of the nodes that go
    through and of every answer. -/
def AskOnce (calls : List (Call Builder)) (heads : List String) : Prop :=
  (Call.heads calls).Perm (heads ++ (Call.answers calls).flatMap Node.headNames)

/-- Of two lists of nodes each head is asked about once, as in either of them. -/
theorem AskOnce.append {xs ys : List (Call Builder)} {hs ks : List String} (hx : AskOnce xs hs)
    (hy : AskOnce ys ks) : AskOnce (xs ++ ys) (hs ++ ks) := by
  rw [AskOnce, List.perm_iff_count] at hx hy ⊢
  intro h
  have hx := hx h
  have hy := hy h
  simp only [Call.heads_append, Call.answers_append, List.flatMap_append, List.count_append]
    at hx hy ⊢
  omega

/-- Whether the calls that `replay` writes down ask once about each group. -/
def RepliesOnce
    (replay : List Node → σ × List (Call Builder) →
      Option ((σ × List (Call Builder)) × List Node)) : Prop :=
  ∀ ns s r, replay ns s = some r → ∃ calls, r.1.2 = s.2 ++ calls ∧ AskOnce calls (Node.headNames ns)

section

variable {cutter : Cutter σ Builder}
  {replay : List Node → σ × List (Call Builder) → Option ((σ × List (Call Builder)) × List Node)}

/-- Handing a group over asks about no group but those of the answer. -/
theorem replace_askOnce (hr : RepliesOnce replay) {g : Node} {s : σ × List (Call Builder)}
    {r : (σ × List (Call Builder)) × List Node} (h : cutter.logged.replace replay g s = some r) :
    ∃ calls, r.1.2 = s.2 ++ calls ∧ AskOnce calls [] := by
  unfold replace at h
  cases hp : cutter.paste s.1 (Builder.holding g) with
  | mk s' answer =>
    cases answer with
    | none =>
      simp only [logged, hp, Option.some.injEq] at h
      subst h
      exact ⟨[.paste (Builder.holding g) none], rfl, by simp [AskOnce, Call.heads, Call.answers]⟩
    | some answer =>
      simp only [logged, hp] at h
      obtain ⟨q, hq, rfl⟩ := Option.map_eq_some_iff.mp h
      obtain ⟨calls, hcalls, hask⟩ := hr _ _ _ hq
      -- the calls of the answer stand between those about the group
      refine ⟨.paste (Builder.holding g) (some answer) :: calls ++ [.pasted], ?_, ?_⟩
      · simp [hcalls]
      · simpa [AskOnce, Call.heads, Call.answers] using hask

mutual

/-- Rewriting a node asks about the heads in it, and in what is put in their place, once each. -/
theorem rewriteNode_askOnce (hr : RepliesOnce replay) :
    ∀ (n : Node) (s : σ × List (Call Builder)) (r : (σ × List (Call Builder)) × List Node),
      cutter.logged.rewriteNode replay n s = some r →
        ∃ calls, r.1.2 = s.2 ++ calls ∧ AskOnce calls (n.preorder.filterMap Node.headName?)
  | .atom a, s, r, h => by
    cases h
    exact ⟨[], by simp, .refl _⟩
  | .comment c, s, r, h => by
    cases h
    exact ⟨[], by simp, .refl _⟩
  | .group d cs l stop, s, r, h => by
    obtain ⟨q, hq, h⟩ := Option.bind_eq_some_iff.mp h
    obtain ⟨inner, hinner, hask⟩ := rewriteAll_askOnce hr cs _ q hq
    rw [ask_logged] at hinner h
    rw [Node.filterMap_preorder_group]
    -- the question about the group itself, if its head is an atom
    have hself : AskOnce ((Node.group d cs l stop).headName?.map Call.cut).toList
        (Node.group d cs l stop).headName?.toList := by
      cases (Node.group d cs l stop).headName? <;> exact .refl _
    split at h
    · obtain ⟨last, hlast, hask'⟩ := replace_askOnce hr h
      have hall := (hself.append hask).append hask'
      rw [List.append_nil] at hall
      exact ⟨_, by simp [hlast, hinner], hall⟩
    · cases h
      exact ⟨_, by simp [hinner], hself.append hask⟩

/-- Each group of the nodes is asked about once, and so is each group of the answers. -/
theorem rewriteAll_askOnce (hr : RepliesOnce replay) :
    ∀ (ns : List Node) (s : σ × List (Call Builder)) (r : (σ × List (Call Builder)) × List Node),
      cutter.logged.rewriteAll replay ns s = some r →
        ∃ calls, r.1.2 = s.2 ++ calls ∧ AskOnce calls (Node.headNames ns)
  | [], s, r, h => by
    cases h
    exact ⟨[], by simp, .refl _⟩
  | n :: ns, s, r, h => by
    obtain ⟨q, hq, h⟩ := Option.bind_eq_some_iff.mp h
    obtain ⟨p, hp, rfl⟩ := Option.map_eq_some_iff.mp h
    obtain ⟨xs, hxs, hx⟩ := rewriteNode_askOnce hr n s q hq
    obtain ⟨ys, hys, hy⟩ := rewriteAll_askOnce hr ns q.1 p hp
    rw [Node.headNames_cons]
    exact ⟨xs ++ ys, by simp [hxs, hys], hx.append hy⟩

end

/-- Whatever the number of levels, each group is asked about once. -/
theorem rewrite_askOnce (levels : Nat) : RepliesOnce (cutter.logged.rewrite levels) := by
  induction levels with
  | zero => exact rewriteAll_askOnce (by simp [RepliesOnce])
  | succ levels ih => exact rewriteAll_askOnce ih

end

/-- **The refinement.** A cutout on the replay of plain nodes does what the rewrite does: it ends in
    the same state and passes on the events of the rewritten nodes, its calls are those of the
    rewrite in their order, and the cutter is asked exactly once about each group that starts with
    an atom, of the nodes themselves and of every answer. -/
theorem run_eq_rewrite {cutter : Cutter σ Builder} (hc : cutter.OnNodes) (levels : Nat) (s : σ)
    {ns : List Node} (hp : Node.plainAll ns = ns) :
    cutter.run levels s (Node.eventsAll ns)
        = (cutter.rewrite levels ns s).map (fun r => (r.1, Node.eventsAll r.2)) ∧
      cutter.logged.run levels (s, []) (Node.eventsAll ns)
        = (cutter.logged.rewrite levels ns (s, [])).map (fun r => (r.1, Node.eventsAll r.2)) ∧
      ∀ s' calls ms, cutter.logged.rewrite levels ns (s, []) = some ((s', calls), ms) →
        cutter.rewrite levels ns s = some (s', ms) ∧
          (Call.heads calls).Perm
            (Node.headNames ns ++ (Call.answers calls).flatMap Node.headNames) := by
  refine ⟨run_of_replays hc levels s hp (Event.replays_eventsAll ns),
    run_of_replays hc.logged levels (s, []) hp (Event.replays_eventsAll ns), ?_⟩
  intro s' calls ms h
  refine ⟨?_, ?_⟩
  · rw [← rewrite_logged cutter levels ns (s, []), h]
    rfl
  · obtain ⟨calls', hcalls, hask⟩ := rewrite_askOnce levels ns (s, []) _ h
    obtain rfl : calls = calls' := by simpa using hcalls
    exact hask

/-- Two templates that expand to each other: the second answer is intercepted again and refused. -/
theorem run_eq_rewrite_twins :
    Expander.cutter.OnNodes ∧
      Node.plainAll [Expander.callOf "a"] = [Expander.callOf "a"] ∧
      Expander.cutter.run 2 Expander.twins (Node.eventsAll [Expander.callOf "a"])
        = (Expander.cutter.rewrite 2 [Expander.callOf "a"] Expander.twins).map
            (fun r => (r.1, Node.eventsAll r.2)) ∧
      ∃ s calls ms,
        Expander.cutter.logged.rewrite 2 [Expander.callOf "a"] (Expander.twins, [])
          = some ((s, calls), ms) ∧
        Call.heads calls = ["a", "b", "a"] ∧
        (Call.heads calls).Perm (Node.headNames [Expander.callOf "a"] ++
          (Call.answers calls).flatMap Node.headNames) := by
  have hplain : Node.plainAll [Expander.callOf "a"] = [Expander.callOf "a"] := rfl
  obtain ⟨hrun, -, hcalls⟩ :=
    run_eq_rewrite Expander.cutter_onNodes 2 Expander.twins hplain
  refine ⟨Expander.cutter_onNodes, hplain, hrun, ?_⟩
  cases h : Expander.cutter.logged.rewrite 2 [Expander.callOf "a"] (Expander.twins, []) with
  | none =>
    -- the run ends, so there is something to say about its calls
    have hends : (Expander.cutter.logged.rewrite 2 [Expander.callOf "a"]
        (Expander.twins, [])).isSome = true := rfl
    rw [h] at hends
    exact absurd hends (by simp)
  | some r =>
    have hheads : (Expander.cutter.logged.rewrite 2 [Expander.callOf "a"]
        (Expander.twins, [])).map (fun r => Call.heads r.1.2) = some ["a", "b", "a"] := rfl
    rw [h] at hheads
    exact ⟨r.1.1, r.1.2, r.2, rfl, Option.some.inj hheads, (hcalls _ _ _ h).2⟩

end Cutter

end Formwork
