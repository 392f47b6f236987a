import Formwork.Proofs.Likeness.Expansions
import Formwork.Proofs.Likeness.References

namespace Formwork

/-!
# Comments change nothing

A document and what is left of it without its comments are alike: they differ in nothing that a
stage depends on. So checking a document with its comments kept, and taking them out of what comes
of it, is checking it with its comments taken out first.

* `like_commentless_iff` — the likeness of a document and one that has lost its comments.
* `Options.check_comments` — the two ways of checking a document.
-/

/-- The likeness of a document and what is left of it without its comments. The texts that problems
    quote may have comments in them, so problems count as the same if they have the same code. -/
def Likeness.commentless : Likeness where
  place := Eq
  bracket := Eq
  problem p q := q.code = p.code
  comments := false

open Likeness (commentless)

/-- Only the codes of problems count and places count as they are, so losing comments goes along
    with reporting and calling. -/
theorem Likeness.lawful_commentless : commentless.Lawful where
  problem _ := rfl
  malformed _ _ _ := rfl
  call := by
    rintro l _ k _ rfl rfl
    rfl

/-! ### Nodes -/

mutual

/-- A node is alike to itself without comments. A comment is alike to nothing at all. -/
theorem Node.like_uncommented : ∀ n : Node, Like commentless [n] (uncommentedAll [n])
  | .atom a => by
    rw [uncommentedAll, uncommentedAll]
    exact .atom rfl rfl rfl .nil
  | .comment c => by
    rw [uncommentedAll, uncommentedAll]
    exact .dropped rfl .nil
  | .group d cs l s => by
    rw [uncommentedAll, uncommentedAll]
    exact .group rfl (like_uncommentedAll cs) rfl rfl .nil

/-- Nodes are alike to what is left of them without their comments. -/
theorem Node.like_uncommentedAll : ∀ ns : List Node, Like commentless ns (uncommentedAll ns)
  | [] => by
    rw [uncommentedAll]
    exact .nil
  | n :: ns => by
    have h := (like_uncommented n).append (like_uncommentedAll ns)
    cases n <;> simpa [uncommentedAll] using h

end

/-- **Nothing else is alike** to nodes that have lost their comments. -/
theorem like_commentless_iff {ns ms : List Node} :
    Like commentless ns ms ↔ ms = Node.uncommentedAll ns := by
  constructor
  · intro h
    -- the induction is on what makes the lists alike; a comment can only have been dropped
    induction h with
    | nil => rw [Node.uncommentedAll]
    | dropped _ _ ih => rw [ih, Node.uncommentedAll]
    | comment hkeep => cases hkeep
    | @atom a b ns ms hvalue hquoted hplace _ ih =>
      obtain ⟨value, quoted, location⟩ := a
      obtain rfl : value = b.value := hvalue
      obtain rfl : quoted = b.quoted := hquoted
      obtain rfl : location = b.location := hplace
      rw [ih, Node.uncommentedAll]
    | group hdelim _ hplace hstop _ ihcs ih =>
      obtain rfl := hdelim
      obtain rfl := hplace
      obtain rfl := hstop
      rw [ihcs, ih, Node.uncommentedAll]
  · rintro rfl
    exact Node.like_uncommentedAll ns

/-- The twin of a node is the node without the comments in it. -/
theorem Likeness.Twin.eq_uncommented {n m : Node} (h : commentless.Twin n m) :
    m = n.uncommented := by
  have hone := like_commentless_iff.mp h.like
  cases h <;> simpa [Node.uncommentedAll, Node.uncommented] using hone

/-! ### Checking -/

/-- Whether two checked documents have come out alike but for the comments, of which the first has
    none: with the same nodes besides, the same references at the same sites, and reports with the
    same codes at the same primary locations. -/
structure Checked.LessComments (c full : Checked) : Prop where
  nodes : c.nodes = Node.uncommentedAll full.nodes
  resolved : c.resolved = full.resolved.map fun r => { r with target := r.target.uncommented }
  reports : (c.reports.map fun r => (r.code, r.primary?))
    = full.reports.map fun r => (r.code, r.primary?)
  consulted : c.consulted = full.consulted

/-- A reference is answered by the same form, which has lost its comments. The reference is an atom
    and has none. -/
theorem Resolved.Twin.eq_uncommented {r q : Resolved} (h : r.Twin commentless q) :
    q = { r with target := r.target.uncommented } := by
  obtain ⟨id, site, target⟩ := r
  obtain ⟨id', site', target'⟩ := q
  obtain rfl : id' = id := h.id
  obtain rfl : target' = target.uncommented := h.target.eq_uncommented
  have hsite : site' = site.uncommented := h.site.eq_uncommented
  have hatom : site.isGroup = false := h.isGroup
  cases site with
  | group => cases hatom
  | _ => rw [hsite, Node.uncommented]

/-- Reports that are alike have the same code and the same primary location. -/
theorem Report.LikeAll.seen {rs qs : List Report} (h : LikeAll commentless rs qs) :
    (qs.map fun r => (r.code, r.primary?)) = rs.map fun r => (r.code, r.primary?) := by
  induction h with
  | nil => rfl
  | @cons r q rs qs hr _ ih =>
    have hcode : q.code = r.code := hr.problem
    have hplaces : r.allLocations = q.allLocations := List.forall₂_eq_eq_eq ▸ hr.places
    rw [List.map_cons, List.map_cons, ih, hcode, Report.primary?, Report.primary?, hplaces]

/-- Expanding a document with its comments and without them. -/
theorem Options.like_expandNodes_comments (o : Options) (ns : List Node) :
    Like commentless (({ o with keepComments := true } : Options).expandNodes ns).1
        (({ o with keepComments := false } : Options).expandNodes ns).1 ∧
      Report.LikeAll commentless (({ o with keepComments := true } : Options).expandNodes ns).2
        (({ o with keepComments := false } : Options).expandNodes ns).2 := by
  refine Options.like_expandNodes Likeness.lawful_commentless ?_ ?_ ?_
  · rfl
  · rfl
  · exact Node.like_uncommentedAll ns

/-- **Comments change nothing.** Whether comments are taken out of a document before it is processed
    or of what came of it makes no difference to its nodes, to its references or to the codes and
    places of its reports. -/
theorem Options.check_comments (o : Options) (docs : Documents) (levels : Nat) (id text : String) :
    Option.Rel Checked.LessComments
      (({ o with keepComments := false } : Options).check docs levels id text)
      (({ o with keepComments := true } : Options).check docs levels id text) := by
  unfold Options.check Options.expandWithIncludes
  cases includeSource docs levels id text o.maxNestingDepth with
  | none => exact .none
  | some loaded =>
    obtain ⟨hnodes, hreports⟩ := o.like_expandNodes_comments loaded.nodes
    obtain ⟨hresolved, hchecked⟩ :=
      like_checkReferences Likeness.lawful_commentless.problem o.scopes hnodes
    refine .some ⟨like_commentless_iff.mp hnodes, ?_, ?_, rfl⟩
    · have heq := List.Forall₂.imp (fun _ _ h => h.eq_uncommented.symm) hresolved
      rw [← List.forall₂_map_left_iff, List.forall₂_eq_eq_eq] at heq
      exact heq.symm
    · simp only [List.map_append]
      rw [hreports.seen, hchecked.seen]

end Formwork
