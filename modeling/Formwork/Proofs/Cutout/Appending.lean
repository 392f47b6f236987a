import Formwork.Proofs.Cutout.Views

namespace Formwork

/-!
# Nodes one after another

Two lists of nodes are rewritten one after the other: the second from the state that the first has
left. What a cutter has written down so far is a part of its state that it only adds to, so what
happens to the second list is what would happen to it alone.

* `Cutter.rewrite_append` — rewriting two lists in a row.
* `Cutter.rewrite_mono` — more levels change no result.
* `Cutter.Commutes.rewrite` — a change to the state that no call of the cutter sees is not seen by
  the rewrite either, and not by a run of the cutout (`Cutter.Commutes.feed`).
-/

variable {σ : Type}

namespace Cutter

section

variable (cutter : Cutter σ Builder) (replay : List Node → σ → Option (σ × List Node))

/-! ### Lists in a row -/

/-- Two lists of nodes are rewritten one after the other. -/
theorem rewriteAll_append (ns ms : List Node) (s : σ) :
    cutter.rewriteAll replay (ns ++ ms) s
      = (cutter.rewriteAll replay ns s).bind fun r =>
          (cutter.rewriteAll replay ms r.1).map fun q => (q.1, r.2 ++ q.2) := by
  induction ns generalizing s with
  | nil => simp [rewriteAll]
  | cons n ns ih =>
    simp only [List.cons_append, rewriteAll, Option.bind_assoc]
    refine Option.bind_congr fun r _ => ?_
    simp only [ih, Option.map_bind, Option.bind_map, Function.comp_def, Option.map_map,
      List.append_assoc]

/-- Rewriting two lists is rewriting the one and then the other. -/
theorem rewrite_append (levels : Nat) (ns ms : List Node) (s : σ) :
    cutter.rewrite levels (ns ++ ms) s
      = (cutter.rewrite levels ns s).bind fun r =>
          (cutter.rewrite levels ms r.1).map fun q => (q.1, r.2 ++ q.2) := by
  cases levels <;> exact rewriteAll_append cutter _ ns ms s

end

/-! ### More levels -/

section

variable {cutter : Cutter σ Builder} {replay replay' : List Node → σ → Option (σ × List Node)}

/-- Whether the results of one replay are results of another. -/
def Extends (replay replay' : List Node → σ → Option (σ × List Node)) : Prop :=
  ∀ ns s r, replay ns s = some r → replay' ns s = some r

/-- A form that is replaced is replaced alike when more replays end. -/
theorem replace_mono (h : Extends replay replay') {g : Node} {s : σ} {r : σ × List Node}
    (hg : cutter.replace replay g s = some r) : cutter.replace replay' g s = some r := by
  cases hp : cutter.paste s (Builder.holding g) with
  | mk s' answer =>
    cases answer with
    | none => rwa [replace_of_none hp] at hg ⊢
    | some answer =>
      rw [replace_of_some hp] at hg ⊢
      obtain ⟨q, hq, rfl⟩ := Option.map_eq_some_iff.mp hg
      rw [h _ _ q hq, Option.map_some]

mutual

theorem rewriteNode_mono (h : Extends replay replay') :
    ∀ (n : Node) (s : σ) (r : σ × List Node),
      cutter.rewriteNode replay n s = some r → cutter.rewriteNode replay' n s = some r
  | .atom _, _, _, hs => hs
  | .comment _, _, _, hs => hs
  | .group d cs l stop, s, r, hs => by
    obtain ⟨q, hq, hs⟩ := Option.bind_eq_some_iff.mp hs
    rw [rewriteNode, rewriteAll_mono h cs _ q hq, Option.bind_some]
    split at hs
    case isTrue hask =>
      rw [if_pos hask]
      exact replace_mono h hs
    case isFalse hask => rwa [if_neg hask]

/-- What is a result with one replay is a result with the other. -/
theorem rewriteAll_mono (h : Extends replay replay') :
    Extends (cutter.rewriteAll replay) (cutter.rewriteAll replay')
  | [], _, _, hs => hs
  | n :: ns, s, r, hs => by
    obtain ⟨q, hq, hs⟩ := Option.bind_eq_some_iff.mp hs
    obtain ⟨p, hp, rfl⟩ := Option.map_eq_some_iff.mp hs
    rw [rewriteAll, rewriteNode_mono h n s q hq, Option.bind_some, rewriteAll_mono h ns q.1 p hp,
      Option.map_some]

end

/-- **More levels** change no result. -/
theorem rewrite_mono {levels levels' : Nat} (hle : levels ≤ levels') :
    Extends (cutter.rewrite levels) (cutter.rewrite levels') := by
  induction levels generalizing levels' with
  | zero => cases levels' <;> exact rewriteAll_mono fun _ _ _ h => nomatch h
  | succ levels ih =>
    obtain ⟨more, rfl⟩ := Nat.exists_eq_add_of_le' hle
    exact rewriteAll_mono (ih (Nat.le_add_left levels more))

end

/-! ### A part of the state that is not looked at -/

/-- Whether a change to the state makes no difference to what the cutter does, and outlasts it. -/
structure Commutes (cutter : Cutter σ Builder) (change : σ → σ) : Prop where
  cut : ∀ s head, cutter.cut (change s) head
    = (change (cutter.cut s head).1, (cutter.cut s head).2)
  paste : ∀ s b, cutter.paste (change s) b = (change (cutter.paste s b).1, (cutter.paste s b).2)
  pasted : ∀ s, cutter.pasted (change s) = change (cutter.pasted s)

/-- Whether a change to the state makes no difference to a replay, and outlasts it. -/
def CommutesOn (change : σ → σ) (replay : List Node → σ → Option (σ × List Node)) : Prop :=
  ∀ ns s, replay ns (change s) = (replay ns s).map fun r => (change r.1, r.2)

/-- The cutter does the same before the change as after it. -/
theorem Commutes.shows {cutter : Cutter σ Builder} {change : σ → σ} (h : cutter.Commutes change) :
    cutter.Shows change cutter :=
  ⟨h.cut, h.paste, h.pasted⟩

/-- **What no call sees** the rewrite does not see. -/
theorem Commutes.rewrite {cutter : Cutter σ Builder} {change : σ → σ} (h : cutter.Commutes change)
    (levels : Nat) : CommutesOn change (cutter.rewrite levels) :=
  h.shows.rewrite levels

end Cutter

/-- The cutout with the state of its cutter changed. -/
def Cutout.mapState {β : Type} (f : σ → σ) (c : Cutout σ β) : Cutout σ β :=
  { c with state := f c.state }

/-- **What no call sees** a run does not see. -/
theorem Cutter.Commutes.feed {cutter : Cutter σ Builder} {change : σ → σ}
    (h : cutter.Commutes change) (levels : Nat) (c : Cutout σ Builder) (es : List Event) :
    Cutout.feed cutter levels (c.mapState change) es
      = (Cutout.feed cutter levels c es).map (Cutout.mapState change) :=
  h.shows.feed levels c es

end Formwork
