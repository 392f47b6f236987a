import Formwork.Proofs.Include.Emptied
import Formwork.Proofs.Likeness.Expansions
import Formwork.Proofs.Likeness.References

namespace Formwork

/-!
# Layout and brackets

Two texts that scan to the same nodes are alike, whatever their layout, and so are two texts whose
nodes are the same once all brackets are round. Nothing that comes after scanning depends on what
may differ between them: where a node stands, whether an atom needed its quotes, and, in the second
case, the brackets of a group.

* `Likeness.lawful_shape`, `Likeness.lawful_anyBrackets` — the two likenesses go along with
  reporting and calling. Problems may quote nodes, so with other brackets only their codes agree.
* `Options.like_checkSource` — checking two texts that have been scanned alike.
* `Options.checkSource_layout` — the same, said of the nodes, the references and the reports.
-/

open Likeness (shape)

/-- The likeness of nodes that differ in their locations and their brackets only. -/
def Likeness.anyBrackets : Likeness where
  place _ _ := True
  bracket _ _ := True
  problem p q := q.code = p.code
  comments := true

open Likeness (anyBrackets)

/-! ### Lawful likenesses -/

/-- Nodes that differ in their locations only are printed alike. -/
theorem Like.chars_eq {ns ms : List Node} (h : Like shape ns ms) :
    Node.charsAll ms = Node.charsAll ns ∧ Node.charsAfter ms = Node.charsAfter ns := by
  induction h with
  | nil => exact ⟨rfl, rfl⟩
  | dropped hdrop => cases hdrop
  | comment _ htext _ _ ih =>
    simp only [Node.charsAll, Node.charsAfter, Node.chars, htext, ih.2, and_self]
  | atom hvalue hquoted _ _ ih =>
    simp only [Node.charsAll, Node.charsAfter, Node.chars, Atom.chars, hvalue, hquoted, ih.2,
      and_self]
  | group hdelim _ _ _ _ ihcs ih =>
    obtain rfl := hdelim
    simp only [Node.charsAll, Node.charsAfter, Node.chars, ihcs.1, ih.2, and_self]

theorem Likeness.Twin.text_eq {n m : Node} (h : shape.Twin n m) : m.text = n.text := by
  have hchars := h.like.chars_eq.1
  simp only [Node.charsAll, Node.charsAfter, List.append_nil] at hchars
  rw [Node.text, Node.text, hchars]

/-- Shapes are lawful, as nodes of one shape have the same text. -/
theorem Likeness.lawful_shape : shape.Lawful where
  problem _ := rfl
  malformed n m h := by
    show Problem.malformedParameter n.text = .malformedParameter m.text
    rw [h.text_eq]
  call _ _ _ _ _ _ := trivial

/-- So they are without their brackets, as only the codes of problems count then. -/
theorem Likeness.lawful_anyBrackets : anyBrackets.Lawful where
  problem _ := rfl
  malformed _ _ _ := rfl
  call _ _ _ _ _ _ := trivial

/-! ### Round brackets -/

namespace Node

mutual

/-- The node with round brackets. -/
def rounded : Node → Node
  | atom a => atom a
  | comment c => comment c
  | group _ cs l s => group .paren (roundedAll cs) l s

/-- The nodes with round brackets. -/
def roundedAll : List Node → List Node
  | [] => []
  | n :: ns => rounded n :: roundedAll ns

end

theorem roundedAll_eq_map (ns : List Node) : roundedAll ns = ns.map rounded := by
  induction ns with
  | nil => rfl
  | cons n ns ih => rw [roundedAll, List.map_cons, ih]

end Node

/-- Nodes that differ in their locations and brackets only are the same with round brackets. -/
theorem Likeness.anyBrackets_isSeenBy : anyBrackets.IsSeenBy (fun _ => .paren) Node.rounded where
  comments := rfl
  place _ _ := trivial
  bracket := iff_of_true trivial rfl
  atom _ := rfl
  comment _ := rfl
  group _ cs _ _ := by rw [Node.rounded, Node.roundedAll_eq_map]

/-! ### Checking a text -/

variable {L : Likeness}

/-- Nodes that are alike are alike when their comments are taken out. -/
theorem Like.uncommentedAll {ns ms : List Node} (h : Like L ns ms) :
    Like L (Node.uncommentedAll ns) (Node.uncommentedAll ms) := by
  induction h with
  | nil =>
    rw [Node.uncommentedAll]
    exact .nil
  | dropped _ _ ih =>
    rw [Node.uncommentedAll]
    exact ih
  | comment _ _ _ _ ih =>
    rw [Node.uncommentedAll, Node.uncommentedAll]
    exact ih
  | atom hvalue hquoted hplace _ ih =>
    rw [Node.uncommentedAll, Node.uncommentedAll]
    exact .atom hvalue hquoted hplace ih
  | group hdelim _ hplace hstop _ ihcs ih =>
    rw [Node.uncommentedAll, Node.uncommentedAll]
    exact .group hdelim ihcs hplace hstop ih

/-- Whether comments are taken out or left in, what is left is alike. -/
theorem Like.withComments {ns ms : List Node} (h : Like L ns ms) (keep : Bool) :
    Like L (Node.withComments keep ns) (Node.withComments keep ms) := by
  cases keep with
  | true => exact h
  | false => exact h.uncommentedAll

namespace Options

/-- Expands a text on its own, and checks the references in what comes of it. -/
def checkSource (o : Options) (origin text : String) : Checked :=
  let p := o.expandSource origin text
  let (resolved, reports) := checkReferences o.scopes p.nodes
  { nodes := p.nodes, resolved, reports := p.reports ++ reports }

/-- **Checking two texts that have been scanned alike**, without reports, comes out alike. -/
theorem like_checkSource (hL : L.Lawful) (o : Options) {origin origin' text text' : String}
    (h : (o.parse origin text).reports = []) (h' : (o.parse origin' text').reports = [])
    (hnodes : Like L (o.parse origin text).nodes (o.parse origin' text').nodes) :
    Like L (o.checkSource origin text).nodes (o.checkSource origin' text').nodes ∧
      List.Forall₂ (Resolved.Twin L) (o.checkSource origin text).resolved
        (o.checkSource origin' text').resolved ∧
      Report.LikeAll L (o.checkSource origin text).reports
        (o.checkSource origin' text').reports := by
  obtain ⟨hexpanded, hreports⟩ :=
    like_expandNodes hL rfl rfl (hnodes.withComments o.keepComments)
  obtain ⟨hresolved, hchecked⟩ := like_checkReferences hL.problem o.scopes hexpanded
  refine ⟨hexpanded, hresolved, ?_⟩
  -- neither scan has reported anything
  show Report.LikeAll L (((o.parse origin text).reports ++ _) ++ _)
    (((o.parse origin' text').reports ++ _) ++ _)
  rw [h, h', List.nil_append, List.nil_append]
  exact hreports.append hchecked

end Options

/-! ### Layout -/

/-- Whether two checked documents have come out the same as far as is to be seen: the same nodes,
    the same identifiers in the same order with the same sites and targets, and the same problems in
    the same order. -/
structure Checked.SeenAlike {α : Type} (seen : Node → Node) (word : Problem → α)
    (c c' : Checked) : Prop where
  nodes : Node.sameAll (c.nodes.map seen) (c'.nodes.map seen) = true
  resolved : List.Forall₂ (fun r r' => r.id = r'.id ∧
    Node.same (seen r.site) (seen r'.site) = true ∧
    Node.same (seen r.target) (seen r'.target) = true) c.resolved c'.resolved
  reports : c.reports.map (fun r => word r.problem) = c'.reports.map fun r => word r.problem

/-- What is alike is seen alike, when single nodes and problems are. -/
theorem Checked.SeenAlike.of_like {α : Type} {seen : Node → Node} {word : Problem → α}
    (hseen : ∀ ns ms, Like L ns ms → Node.sameAll (ns.map seen) (ms.map seen) = true)
    (hword : ∀ p q, L.problem p q → word p = word q) {c c' : Checked}
    (hnodes : Like L c.nodes c'.nodes)
    (hresolved : List.Forall₂ (Resolved.Twin L) c.resolved c'.resolved)
    (hreports : Report.LikeAll L c.reports c'.reports) : c.SeenAlike seen word c' := by
  -- a node is seen as a list of one node is
  have htwin : ∀ n m, L.Twin n m → Node.same (seen n) (seen m) = true := by
    intro n m hnm
    have hone := hseen [n] [m] hnm.like
    rw [List.map_singleton, List.map_singleton, Node.sameAll, Bool.and_eq_true] at hone
    exact hone.1
  refine ⟨hseen _ _ hnodes, ?_, ?_⟩
  · exact hresolved.imp fun r r' hr => ⟨hr.id.symm, htwin _ _ hr.site, htwin _ _ hr.target⟩
  · rw [← List.forall₂_eq_eq_eq, List.forall₂_map_left_iff, List.forall₂_map_right_iff]
    exact List.Forall₂.imp (fun r r' hr => hword _ _ hr.problem) hreports

namespace Options

/-- **Layout and brackets do not matter.** Two texts that are scanned without reports, under any
    names. If they are scanned to the same nodes, checking them gives the same nodes, the same
    references in the same order with the same sites and targets, and the same problems in the same
    order. If the nodes are the same but for brackets, so is all this, and the codes of the problems
    are the same in the same order. -/
theorem checkSource_layout (o : Options) {origin origin' text text' : String}
    (h : (o.parse origin text).reports = []) (h' : (o.parse origin' text').reports = []) :
    (Node.sameAll (o.parse origin text).nodes (o.parse origin' text').nodes = true →
      (o.checkSource origin text).SeenAlike id id (o.checkSource origin' text')) ∧
    (Node.sameAll ((o.parse origin text).nodes.map Node.rounded)
        ((o.parse origin' text').nodes.map Node.rounded) = true →
      (o.checkSource origin text).SeenAlike Node.rounded Problem.code
        (o.checkSource origin' text')) := by
  -- what is scanned is plain, so a likeness can be read off the nodes
  have hplain : ∀ origin text, Node.plainAll (o.parse origin text).nodes
      = (o.parse origin text).nodes := fun origin text => Builder.plainAll_build _
  constructor
  · intro hsame
    have hlike := Like.of_sameAll_seen Likeness.shape_isSeenBy (o.parse origin text).nodes
      (o.parse origin' text').nodes (by rwa [List.map_id, List.map_id])
    rw [hplain, hplain] at hlike
    obtain ⟨hnodes, hresolved, hreports⟩ := o.like_checkSource Likeness.lawful_shape h h' hlike
    exact .of_like (fun _ _ hns => hns.sameAll_seen Likeness.shape_isSeenBy) (fun p q hpq => hpq)
      hnodes hresolved hreports
  · intro hsame
    have hlike := Like.of_sameAll_seen Likeness.anyBrackets_isSeenBy _ _ hsame
    rw [hplain, hplain] at hlike
    obtain ⟨hnodes, hresolved, hreports⟩ :=
      o.like_checkSource Likeness.lawful_anyBrackets h h' hlike
    exact .of_like (fun _ _ hns => hns.sameAll_seen Likeness.anyBrackets_isSeenBy)
      (fun p q hpq => Eq.symm hpq) hnodes hresolved hreports

/-- A text with a template, a reference before its definition and an invocation that is reported;
    the same text with other blanks and more quotes; and the same text with other brackets. -/
theorem checkSource_layout_mixed :
    let o : Options := {}
    let text := "(template d (@x) [e name: @x])#a(d x:a)(d)"
    let quoted := "(template \"d\"(@x)[e name:@x])\n#a (d x: \"a\") (d)"
    let square := "[template d [@x] (e name: @x)]#a(d x:a)[d]"
    (o.parse "doc" text).reports = [] ∧ (o.parse "other" quoted).reports = [] ∧
      (o.parse "other" square).reports = [] ∧
      (o.checkSource "doc" text).SeenAlike id id (o.checkSource "other" quoted) ∧
      (o.checkSource "doc" text).SeenAlike Node.rounded Problem.code
        (o.checkSource "other" square) ∧
      (o.checkSource "doc" text).resolved.map Resolved.id = ["a"] ∧
      (o.checkSource "doc" text).reports.map (·.problem) = [.missingArgument "d" "x"] := by
  intro o text quoted square
  have h : (o.parse "doc" text).reports = [] := List.eq_nil_of_length_eq_zero (by decide +kernel)
  have hquoted : (o.parse "other" quoted).reports = [] :=
    List.eq_nil_of_length_eq_zero (by decide +kernel)
  have hsquare : (o.parse "other" square).reports = [] :=
    List.eq_nil_of_length_eq_zero (by decide +kernel)
  refine ⟨h, hquoted, hsquare, ?_, ?_, ?_, ?_⟩
  · exact (o.checkSource_layout h hquoted).1 (by decide +kernel)
  · exact (o.checkSource_layout h hsquare).2 (by decide +kernel)
  · decide +kernel
  · decide +kernel

end Options

end Formwork
