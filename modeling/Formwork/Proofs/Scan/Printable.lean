import Formwork.Scan
import Formwork.Proofs.Replay

namespace Formwork

/-!
# Printable nodes

The nodes whose printed form can be read back: comments stay on their line, an atom without quotes
needs none, and no group is nested deeper than the scanner allows.

* `Node.Printable` — the condition.
* `printableAll_nodes` — the nodes of every scan are printable, whatever the text.
-/

namespace Node

/-! ### The condition -/

mutual

/-- Whether the printed form of a node can be read back where `limit` more groups may be open. -/
def Printable (limit : Nat) : Node → Prop
  | atom a => a.quoted = true ∨ a.quoted = (Atom.plain a.value a.location).quoted
  | comment c => '\n' ∉ c.text.toList ∧ '\r' ∉ c.text.toList
  | group _ cs _ _ => 0 < limit ∧ PrintableAll (limit - 1) cs

/-- Whether the printed form of each node can be read back. -/
def PrintableAll (limit : Nat) : List Node → Prop
  | [] => True
  | n :: ns => Printable limit n ∧ PrintableAll limit ns

end

theorem printableAll_iff {limit : Nat} {ns : List Node} :
    PrintableAll limit ns ↔ ∀ n ∈ ns, Printable limit n := by
  induction ns with
  | nil => simp [PrintableAll]
  | cons n ns ih => simp [PrintableAll, ih]

/-- The order of the nodes does not matter. -/
theorem printableAll_reverse {limit : Nat} {ns : List Node} :
    PrintableAll limit ns.reverse ↔ PrintableAll limit ns := by
  simp only [printableAll_iff, List.mem_reverse]

end Node

/-! ### Builders -/

namespace Builder

/-- Whether the open groups may be open, and hold printable nodes. -/
def GroupsPrintable (limit : Nat) : List OpenGroup → Prop
  | [] => True
  | g :: gs =>
    gs.length < limit ∧ Node.PrintableAll (limit - gs.length - 1) g.children ∧
      GroupsPrintable limit gs

/-- Whether everything that a builder holds is printable. -/
structure Printable (limit : Nat) (b : Builder) : Prop where
  top : Node.PrintableAll limit b.top
  groups : GroupsPrintable limit b.groups

namespace Printable

variable {limit : Nat} {b : Builder}

/-- A node that is printable where it is added. -/
theorem push (h : b.Printable limit) {n : Node}
    (hn : n.Printable (limit - b.groups.length)) : (b.push n).Printable limit := by
  cases hg : b.groups with
  | nil =>
    simp only [hg, List.length_nil, Nat.sub_zero] at hn
    simp only [Builder.push, hg]
    exact ⟨⟨hn, h.top⟩, trivial⟩
  | cons g gs =>
    have hgroups := h.groups
    simp only [hg, List.length_cons] at hn hgroups
    simp only [Builder.push, hg]
    exact ⟨h.top, hgroups.1, ⟨by rwa [Nat.sub_sub], hgroups.2.1⟩, hgroups.2.2⟩

/-- Closing the innermost group. -/
theorem close (h : b.Printable limit) : b.close.Printable limit := by
  cases hg : b.groups with
  | nil => simpa only [Builder.close, hg] using h
  | cons g gs =>
    have hgroups := h.groups
    simp only [hg] at hgroups
    obtain ⟨hroom, hchildren, hgs⟩ := hgroups
    have hb : ({ b with groups := gs } : Builder).Printable limit := ⟨h.top, hgs⟩
    simp only [Builder.close, hg]
    exact hb.push ⟨Nat.sub_pos_of_lt hroom, Node.printableAll_reverse.mpr hchildren⟩

/-- An event, if a bracket may open and a comment stays on its line. -/
theorem receive (h : b.Printable limit) {e : Event}
    (hopen : ∀ d, e = .opening d → b.groups.length < limit)
    (hcomment : ∀ t, e = .comment t → '\n' ∉ t.toList ∧ '\r' ∉ t.toList) :
    (b.receive e).Printable limit := by
  cases e with
  | locate l => exact ⟨h.top, h.groups⟩
  | opening d => exact ⟨h.top, hopen d rfl, trivial, h.groups⟩
  | atom v => exact h.push (.inr rfl)
  | comment t => exact h.push (hcomment t rfl)
  | closing d => exact h.close

/-- The nodes of a builder, with every open group closed. -/
theorem nodes (h : b.Printable limit) : Node.PrintableAll limit b.nodes := by
  have hclose : ∀ (gs : List OpenGroup) (b : Builder), b.Printable limit →
      (gs.foldl (fun b _ => b.close) b).Printable limit := by
    intro gs
    induction gs with
    | nil => exact fun _ hb => hb
    | cons g gs ih => exact fun b hb => ih b.close hb.close
  exact Node.printableAll_reverse.mpr (hclose b.groups b h).top

end Printable

theorem groups_push (b : Builder) (n : Node) : (b.push n).groups.length = b.groups.length := by
  cases h : b.groups <;> simp [push, h]

/-- Closing takes off one group. -/
theorem groups_close (b : Builder) : b.close.groups.length = b.groups.length - 1 := by
  cases h : b.groups with
  | nil => simp [close, h]
  | cons g gs =>
    simp only [close, h]
    exact groups_push _ _

end Builder

/-! ### Scanners -/

namespace Scanner

/-- What the events written so far build. -/
def built (s : Scanner) : Builder := Sink.feed Builder.empty s.events.reverse

theorem built_send (s : Scanner) (l : Location) (e : Event) :
    (s.send l e).built = (s.built.receive (.locate l)).receive e := by
  simp [built, send, Sink.receive]

/-- What holds of a scanner at every moment: what it has written is printable, it knows which groups
    are open unless it has halted, and the comment that it is in has no line end. -/
structure Tame (limit : Nat) (s : Scanner) : Prop where
  printable : s.built.Printable limit
  aligned : s.mode ≠ .halted → s.built.groups.length = s.groups.length
  onLine : ∀ start chars, s.mode = .comment start chars → '\n' ∉ chars ∧ '\r' ∉ chars

namespace Tame

variable {src : Source} {limit : Nat} {s : Scanner}

/-- Going on in a mode that is no comment. -/
theorem enter (h : s.Tame limit) (hs : s.mode ≠ .halted) {mode : ScanMode}
    (hmode : ∀ start chars, mode = .comment start chars → '\n' ∉ chars ∧ '\r' ∉ chars) :
    ({ s with mode } : Scanner).Tame limit :=
  ⟨h.printable, fun _ => h.aligned hs, hmode⟩

theorem between (h : s.Tame limit) (hs : s.mode ≠ .halted) : s.between.Tame limit :=
  h.enter hs (by simp)

/-- Reports do not matter. -/
theorem report (h : s.Tame limit) (p : Problem) (l : Location) : (s.report p l).Tame limit :=
  ⟨h.printable, h.aligned, h.onLine⟩

/-- Nothing is asked of the open groups of a scanner that has halted. -/
theorem halt (h : s.Tame limit) (groups : List Delim) (rs : List Report) :
    ({ s with groups, reports := rs } : Scanner).halt.Tame limit :=
  ⟨h.printable, fun hmode => absurd rfl hmode, by simp [Scanner.halt]⟩

/-- Writing an atom. -/
theorem sendAtom (h : s.Tame limit) (start : Mark) (chars : List Char) :
    (s.sendAtom src start chars).Tame limit := by
  refine ⟨?_, fun hmode => ?_, h.onLine⟩
  · rw [Scanner.sendAtom, built_send]
    exact (h.printable.receive (by simp) (by simp)).receive (by simp) (by simp)
  · rw [Scanner.sendAtom, built_send]
    exact (Builder.groups_push _ _).trans (h.aligned hmode)

/-- Writing the comment that the scanner is in. -/
theorem sendComment (h : s.Tame limit) {start : Mark} {chars : List Char}
    (hmode : s.mode = .comment start chars) : (s.sendComment src start chars).Tame limit := by
  refine ⟨?_, fun hmode => ?_, h.onLine⟩
  · rw [Scanner.sendComment, built_send]
    have hline := h.onLine start chars hmode
    refine (h.printable.receive (by simp) (by simp)).receive (by simp) fun t ht => ?_
    obtain rfl := Event.comment.inj ht
    simpa using hline
  · rw [Scanner.sendComment, built_send]
    exact (Builder.groups_push _ _).trans (h.aligned hmode)

/-- Opening a group. -/
theorem openGroup (h : s.Tame src.limit) (hs : s.mode ≠ .halted) (d : Delim) :
    (s.openGroup src d).Tame src.limit := by
  unfold Scanner.openGroup
  split
  case isTrue => exact h.halt _ _
  case isFalse hroom =>
    -- the limit was checked against the groups of the scanner, which are those of the builder
    have hgroups := h.aligned hs
    refine ⟨?_, fun _ => ?_, h.onLine⟩
    · rw [built_send]
      refine (h.printable.receive (by simp) (by simp)).receive (fun _ _ => ?_) (by simp)
      exact hgroups.symm ▸ Nat.lt_of_not_le hroom
    · rw [built_send]
      exact congrArg (· + 1) hgroups

/-- Closing a group. -/
theorem closeGroup (h : s.Tame src.limit) (hs : s.mode ≠ .halted) (d : Delim) :
    (s.closeGroup src d).Tame src.limit := by
  unfold Scanner.closeGroup
  split
  case h_1 => exact h.halt _ _
  case h_2 g gs hg =>
    split
    case isTrue =>
      -- the builder closes the same group, because as many are open in it
      have hgroups := h.aligned hs
      refine ⟨?_, fun _ => ?_, h.onLine⟩
      · rw [built_send]
        exact (h.printable.receive (by simp) (by simp)).receive (by simp) (by simp)
      · rw [built_send]
        refine (Builder.groups_close _).trans ?_
        have hlen : s.built.groups.length = gs.length + 1 := by rw [hgroups, hg, List.length_cons]
        exact congrArg (· - 1) hlen
    case isFalse => exact h.halt _ _

/-- Reading a character between atoms. -/
theorem readBetween (h : s.Tame src.limit) (hs : s.mode ≠ .halted) (c : Char) :
    (s.readBetween src c).Tame src.limit := by
  unfold Scanner.readBetween
  split
  case isTrue => exact h
  case isFalse =>
    split
    · exact h.openGroup hs _
    · exact h.closeGroup hs _
    · split
      · exact h.enter hs (by simp)
      · split <;> exact h.enter hs (by simp)

/-- Reading a character. -/
theorem read (h : s.Tame src.limit) (c : Char) : (s.read src c).Tame src.limit := by
  -- one case for each mode; a comment is the only text that has to stay on its line
  unfold Scanner.read
  split
  case h_1 hmode => exact h.readBetween (by simp [hmode]) c
  case h_2 => exact h
  case h_3 start chars hmode =>
    split
    case isTrue => exact (h.sendComment hmode).between (by simp [Scanner.sendComment, send, hmode])
    case isFalse hc =>
      -- the character goes into the comment, as it ends no line
      refine h.enter (by simp [hmode]) fun _ _ heq => ?_
      obtain ⟨-, rfl⟩ := ScanMode.comment.inj heq
      have hline := h.onLine start chars hmode
      rw [not_or] at hc
      simp only [List.mem_cons, not_or]
      exact ⟨⟨Ne.symm hc.1, hline.1⟩, Ne.symm hc.2, hline.2⟩
  case h_4 hmode => exact h.enter (by simp [hmode]) (by simp)
  case h_5 start chars hmode =>
    split
    · exact (h.sendAtom start chars).between (by simp [Scanner.sendAtom, send, hmode])
    · split <;> exact h.enter (by simp [hmode]) (by simp)
  case h_6 start chars hmode =>
    have hs : ∀ chars, (s.sendAtom src start chars).mode ≠ .halted := by
      simp [Scanner.sendAtom, send, hmode]
    split
    · exact (h.sendAtom start _).between (hs _)
    · split
      · exact ((h.sendAtom start chars).between (hs _)).readBetween
          (by simp [Scanner.between]) c
      · exact h.enter (by simp [hmode]) (by simp)

/-- Reading characters. -/
theorem foldl_step (cs : List Char) (h : s.Tame src.limit) :
    (cs.foldl (step src) s).Tame src.limit := by
  induction cs generalizing s with
  | nil => exact h
  | cons c cs ih =>
    have hread : (s.read src c).Tame src.limit := h.read c
    exact ih ⟨hread.printable, hread.aligned, hread.onLine⟩

/-- The end of the text. -/
theorem finish (h : s.Tame src.limit) : (s.finish src).Tame src.limit := by
  have hflush : (s.flush src).Tame src.limit := by
    unfold Scanner.flush
    split
    · exact h
    · exact h
    case h_3 hmode => exact h.sendComment hmode
    case h_4 => exact h.sendAtom _ _
    case h_5 => exact (h.report _ _).sendAtom _ _
  unfold Scanner.finish
  split
  · exact hflush
  · exact hflush.report _ _

end Tame

end Scanner

/-- **The nodes of a scan are printable**, whatever the text and however it ends. -/
theorem printableAll_nodes (src : Source) (text : String) :
    Node.PrintableAll src.limit (scan src text).nodes := by
  have hstart : ({} : Scanner).Tame src.limit := ⟨⟨trivial, trivial⟩, fun _ => rfl, by simp⟩
  exact (Scanner.Tame.finish (hstart.foldl_step text.toList)).printable.nodes

end Formwork
