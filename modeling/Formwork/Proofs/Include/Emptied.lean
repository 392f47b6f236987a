import Formwork.Include
import Formwork.Proofs.Cutout.Leftovers
import Formwork.Proofs.Likeness.Scanning

namespace Formwork

/-!
# Documents with emptied forms

What is left of a document when `no-include` forms in it lose their contents: nodes that differ in
their locations only, but for the forms, which are empty.

* `Emptied` — the relation of the nodes before and after.
* `Emptied.headName?` — groups keep their heads.
* `Node.Includeless` — forms that include nothing.
* `EmptiedText.parse` — a text before and after, wherever it is included.
-/

open Likeness (shape)

/-! ### The relation -/

/-- Whether two lists of nodes differ in their locations only, but for `no-include` forms with a
    property, which are empty in the second list. -/
inductive Emptied (P : Node → Prop) : List Node → List Node → Prop where
  | nil : Emptied P [] []
  | comment {c c' : Comment} {ns ms : List Node} (htext : c.text = c'.text)
      (hrest : Emptied P ns ms) : Emptied P (.comment c :: ns) (.comment c' :: ms)
  | atom {a b : Atom} {ns ms : List Node} (hvalue : a.value = b.value) (hquoted : a.quoted = b.quoted)
      (hrest : Emptied P ns ms) : Emptied P (.atom a :: ns) (.atom b :: ms)
  | group {d : Delim} {cs cs' : List Node} {l l' s s' : Location} {ns ms : List Node}
      (hcs : Emptied P cs cs') (hrest : Emptied P ns ms) :
      Emptied P (.group d cs l s :: ns) (.group d cs' l' s' :: ms)
  | emptied {form form' : Node} {ns ms : List Node} (hform : P form)
      (hhead : form.headName? = some Includer.rootOnlyWord)
      (hhead' : form'.headName? = some Includer.rootOnlyWord) (htail : form'.tail = [])
      (hrest : Emptied P ns ms) : Emptied P (form :: ns) (form' :: ms)

/-- Nodes that differ in their locations only have no emptied forms. -/
theorem Like.emptied {P : Node → Prop} {ns ms : List Node} (h : Like shape ns ms) :
    Emptied P ns ms := by
  induction h with
  | nil => exact .nil
  | dropped hdrop => cases hdrop
  | comment _ htext _ _ ih => exact .comment htext ih
  | atom hvalue hquoted _ _ ih => exact .atom hvalue hquoted ih
  | group hdelim _ _ _ _ ihcs ih =>
    obtain rfl := hdelim
    exact .group ihcs ih

/-- A node with a head is a group. -/
theorem Node.exists_group_of_headName? {n : Node} {head : String} (h : n.headName? = some head) :
    ∃ d cs l s, n = .group d cs l s := by
  cases n with
  | atom => cases h
  | comment => cases h
  | group d cs l s => exact ⟨d, cs, l, s, rfl⟩

/-- What is no comment is the head of the group that it starts. -/
theorem Node.headName?_cons {n : Node} (hn : n.isComment = false) (d : Delim) (cs : List Node)
    (l s : Location) : (group d (n :: cs) l s).headName? = n.atom?.map Atom.value := by
  rw [headName?, head?_cons hn, Option.bind_some]

/-- A comment is no head. -/
theorem Node.headName?_comment_cons (d : Delim) (c : Comment) (cs : List Node) (l s : Location) :
    (group d (.comment c :: cs) l s).headName? = (group d cs l s).headName? := by
  rw [headName?, head?_comment_cons, headName?]

namespace Emptied

variable {P Q : Node → Prop} {ns ms : List Node}

theorem mono (h : Emptied P ns ms) (hPQ : ∀ form, P form → Q form) : Emptied Q ns ms := by
  induction h with
  | nil => exact .nil
  | comment htext _ ih => exact .comment htext ih
  | atom hvalue hquoted _ ih => exact .atom hvalue hquoted ih
  | group _ _ ihcs ih => exact .group ihcs ih
  | emptied hform hhead hhead' htail _ ih => exact .emptied (hPQ _ hform) hhead hhead' htail ih

/-- Groups keep their heads. -/
theorem headName? (h : Emptied P ns ms) (d : Delim) (l l' s s' : Location) :
    (Node.group d ms l' s').headName? = (Node.group d ns l s).headName? := by
  induction h with
  | nil => rfl
  | comment _ _ ih => rw [Node.headName?_comment_cons, Node.headName?_comment_cons, ih]
  | atom hvalue =>
    rw [Node.headName?_cons rfl, Node.headName?_cons rfl]
    exact congrArg some hvalue.symm
  | group => rw [Node.headName?_cons rfl, Node.headName?_cons rfl]; rfl
  | emptied _ hhead hhead' =>
    obtain ⟨_, _, _, _, rfl⟩ := Node.exists_group_of_headName? hhead
    obtain ⟨_, _, _, _, rfl⟩ := Node.exists_group_of_headName? hhead'
    rw [Node.headName?_cons rfl, Node.headName?_cons rfl]
    rfl

/-- The nodes that a module include keeps. No `no-include` form is among them. -/
theorem filter_keptByModules (h : Emptied P ns ms) :
    Emptied P (ns.filter Includer.keptByModules) (ms.filter Includer.keptByModules) := by
  -- a form that is emptied is never a module
  have hforms : ∀ {form : Node}, form.headName? = some Includer.rootOnlyWord →
      ¬Includer.keptByModules form = true := by
    intro form hhead
    rw [Includer.keptByModules, hhead]
    decide
  induction h with
  | nil => exact .nil
  | comment _ _ ih => exact ih
  | atom _ _ _ ih => exact ih
  | @group d cs cs' l l' s s' ns ms hcs _ _ ih =>
    have hkept : Includer.keptByModules (.group d cs' l' s')
        = Includer.keptByModules (.group d cs l s) := by
      rw [Includer.keptByModules, hcs.headName? d l l' s s', Includer.keptByModules]
    rw [List.filter_cons, List.filter_cons, hkept]
    split
    · exact .group hcs ih
    · exact ih
  | emptied _ hhead hhead' _ _ ih =>
    rw [List.filter_cons_of_neg (hforms hhead), List.filter_cons_of_neg (hforms hhead')]
    exact ih

/-- Locations before emptying do not matter. -/
theorem of_like_left (hP : ∀ n m, shape.Twin n m → P m → P n) {ks : List Node}
    (h : Emptied P ks ms) (hlike : Like shape ns ks) : Emptied P ns ms := by
  -- the induction is on what was emptied, and the list alike to it is taken apart along
  induction h generalizing ns with
  | nil =>
    cases hlike with
    | nil => exact .nil
    | dropped hdrop => cases hdrop
  | comment htext _ ih =>
    cases hlike with
    | dropped hdrop => cases hdrop
    | comment _ htext' _ hrest => exact .comment (htext'.trans htext) (ih hrest)
  | atom hvalue hquoted _ ih =>
    cases hlike with
    | dropped hdrop => cases hdrop
    | atom hvalue' hquoted' _ hrest =>
      exact .atom (hvalue'.trans hvalue) (hquoted'.trans hquoted) (ih hrest)
  | group _ _ ihcs ih =>
    cases hlike with
    | dropped hdrop => cases hdrop
    | group hdelim hcs _ _ hrest =>
      obtain rfl := hdelim
      exact .group (ihcs hcs) (ih hrest)
  | emptied hform hhead hhead' htail _ ih =>
    obtain ⟨d, cs, l, s, rfl⟩ := Node.exists_group_of_headName? hhead
    cases hlike with
    | dropped hdrop => cases hdrop
    | group hdelim hcs hplace hstop hrest =>
      -- the form is alike as a whole, head and contents, so it may be emptied too
      have htwin : shape.Twin (.group _ _ _ _) (.group d cs l s) := .group hdelim hcs hplace hstop
      exact .emptied (hP _ _ htwin hform) (htwin.headName?.symm.trans hhead) hhead' htail (ih hrest)

/-- Locations after emptying do not matter. -/
theorem of_like_right {ks : List Node} (h : Emptied P ns ks) (hlike : Like shape ks ms) :
    Emptied P ns ms := by
  induction h generalizing ms with
  | nil =>
    cases hlike
    exact .nil
  | comment htext _ ih =>
    cases hlike with
    | dropped hdrop => cases hdrop
    | comment _ htext' _ hrest => exact .comment (htext.trans htext') (ih hrest)
  | atom hvalue hquoted _ ih =>
    cases hlike with
    | atom hvalue' hquoted' _ hrest =>
      exact .atom (hvalue.trans hvalue') (hquoted.trans hquoted') (ih hrest)
  | group _ _ ihcs ih =>
    cases hlike with
    | group hdelim hcs _ _ hrest =>
      obtain rfl := hdelim
      exact .group (ihcs hcs) (ih hrest)
  | emptied hform hhead hhead' htail _ ih =>
    obtain ⟨d, cs, l, s, rfl⟩ := Node.exists_group_of_headName? hhead'
    cases hlike with
    | group hdelim hcs hplace hstop hrest =>
      have htwin : shape.Twin (.group d cs l s) (.group _ _ _ _) := .group hdelim hcs hplace hstop
      -- what is alike to an empty list is empty
      have hempty := htwin.tail
      rw [htail] at hempty
      exact .emptied hform hhead (htwin.headName?.trans hhead') (List.forall₂_nil_left_iff.mp hempty)
        (ih hrest)

end Emptied

/-! ### Forms that include nothing -/

mutual

/-- Whether no group at any depth of a node is a form that includes a document. -/
def Node.Includeless : Node → Prop
  | .atom _ => True
  | .comment _ => True
  | .group d cs l s =>
    (Node.group d cs l s).headName? ≠ some Includer.includeWord ∧
      (Node.group d cs l s).headName? ≠ some Includer.modulesWord ∧ IncludelessAll cs

/-- Whether no group at any depth of nodes is a form that includes a document. -/
def Node.IncludelessAll : List Node → Prop
  | [] => True
  | n :: ns => n.Includeless ∧ IncludelessAll ns

end

/-- Locations do not matter to what is included. -/
theorem Like.includelessAll {ns ms : List Node} (h : Like shape ns ms)
    (hms : Node.IncludelessAll ms) : Node.IncludelessAll ns := by
  induction h with
  | nil => trivial
  | dropped hdrop => cases hdrop
  | comment _ _ _ _ ih => exact ⟨trivial, ih hms.2⟩
  | atom _ _ _ _ ih => exact ⟨trivial, ih hms.2⟩
  | group hdelim hcs hplace hstop _ ihcs ih =>
    have hhead := (Likeness.Twin.group hdelim hcs hplace hstop).headName?
    obtain ⟨⟨hinclude, hmodules, hinside⟩, hrest⟩ := hms
    rw [hhead] at hinclude hmodules
    exact ⟨⟨hinclude, hmodules, ihcs hinside⟩, ih hrest⟩

/-- Whether a form may be emptied. Under `quiet`, only forms that include nothing may. -/
def MayEmpty (quiet : Prop) (form : Node) : Prop := quiet → form.Includeless

theorem MayEmpty.of_twin {quiet : Prop} {n m : Node} (hnm : shape.Twin n m)
    (h : MayEmpty quiet m) : MayEmpty quiet n :=
  fun hquiet => (hnm.like.includelessAll ⟨h hquiet, trivial⟩).1

/-! ### Texts -/

/-- Whether two texts are the same, or both scan without a report, the second to the nodes of the
    first with `no-include` forms emptied. -/
def EmptiedText (quiet : Prop) (src : Source) (text text' : String) : Prop :=
  text' = text ∨
    (parse src text).2 = [] ∧ (parse src text').2 = [] ∧
      Emptied (MayEmpty quiet) (parse src text).1 (parse src text').1

/-- Texts are what they should be if they scan to nodes that are. -/
theorem EmptiedText.of_shapes {quiet : Prop} {src : Source} {text text' : String}
    (ns ms : List Node)
    (htext : ((parse src text).2.isEmpty && Node.sameAll (parse src text).1 ns) = true)
    (htext' : ((parse src text').2.isEmpty && Node.sameAll ms (parse src text').1) = true)
    (h : Emptied (MayEmpty quiet) (Node.plainAll ns) (Node.plainAll ms)) :
    EmptiedText quiet src text text' := by
  rw [Bool.and_eq_true, List.isEmpty_iff] at htext htext'
  -- the same text up to locations is the same shape
  have hsame : ∀ ks ks' : List Node, Node.sameAll ks ks' = true →
      Like shape (Node.plainAll ks) (Node.plainAll ks') := by
    intro ks ks' h
    exact Like.of_sameAll_seen Likeness.shape_isSeenBy ks ks' (by rwa [List.map_id, List.map_id])
  have hbefore := hsame _ _ htext.2
  have hafter := hsame _ _ htext'.2
  have hplain : ∀ text, Node.plainAll (parse src text).1 = (parse src text).1 :=
    fun text => Builder.plainAll_build (scan src text).events
  rw [hplain] at hbefore hafter
  exact .inr ⟨htext.1, htext'.1,
    (h.of_like_left (fun _ _ => MayEmpty.of_twin) hbefore).of_like_right hafter⟩

/-- A text with emptied forms has emptied forms wherever it is included, and the same problems. -/
theorem EmptiedText.parse {quiet : Prop} {src : Source} {text text' : String}
    (h : EmptiedText quiet src text text') {at' at'' : Source} (hlimit : at'.limit = src.limit)
    (hlimit' : at''.limit = src.limit) :
    Emptied (MayEmpty quiet) (parse at' text).1 (parse at'' text').1 ∧
      (parse at'' text').2.map Report.problem = (parse at' text).2.map Report.problem := by
  obtain rfl | ⟨hreports, hreports', hnodes⟩ := h
  · obtain ⟨hlike, hproblems⟩ := like_parse (hlimit'.trans hlimit.symm) text'
    exact ⟨hlike.emptied, hproblems.problems⟩
  · obtain ⟨hlike, hproblems⟩ := like_parse (hlimit.symm) text
    obtain ⟨hlike', hproblems'⟩ := like_parse hlimit' text'
    refine ⟨(hnodes.of_like_left (fun _ _ => MayEmpty.of_twin) hlike).of_like_right hlike', ?_⟩
    rw [hproblems'.problems, hreports', ← hproblems.problems, hreports]

end Formwork
