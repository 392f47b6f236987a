import Formwork.Proofs.Provenance.Located
import Formwork.Proofs.Scan.Locations

namespace Formwork

/-!
# What is scanned stands in its text

A scan writes nothing and reports nothing but at marks of its text: a group that is never closed ends
where the last event stands, and a text that breaks off is reported at its end.

* `Standing.Covers` — a standing allows whatever a text may say.
* `stands_parse` — then the nodes and reports of a scan stand where they may.
* `located_parse` — all of them stand at marks of the text.
-/

/-- Whether a standing allows what may be written in a text, and reports anywhere in it. -/
structure Standing.Covers (Q : Standing) (locate : Mark → Location) (text : String) : Prop where
  event : ∀ {m : Mark} {rest : List Char} {e : Event}, m.Reads text rest → e.Written rest →
    e.Stands Q (locate m)
  edge : ∀ {m : Mark} {rest : List Char}, m.Reads text rest → Q.edge (locate m)

/-- What is built from events that stand where they may. -/
theorem Builder.Stands.feed_marked {Q : Standing} {locate : Mark → Location}
    {marked : List (Mark × Event)} (h : ∀ p ∈ marked, p.2.Stands Q (locate p.1)) {b : Builder}
    (hb : b.Stands Q) : (Sink.feed b (marked.flatMap (Event.placed locate))).Stands Q := by
  induction marked generalizing b with
  | nil => exact hb
  | cons p marked ih =>
    rw [List.forall_mem_cons] at h
    rw [List.flatMap_cons, Sink.feed_append]
    exact ih h.2 (hb.feed_at h.1)

/-- **A scan stands in its text.** The nodes and reports of a scan stand where they may, if what the
    text may say does. -/
theorem stands_parse {Q : Standing} {src : Source} {text : String}
    (h : Q.Covers src.locate text) :
    Node.StandsAll Q (parse src text).1 ∧ Report.StandsAll Q (parse src text).2 := by
  obtain ⟨⟨marked, hevents, -, hmarked⟩, hreports⟩ := exists_marked src text
  have hstands : ∀ p ∈ marked, p.2.Stands Q (src.locate p.1) := by
    intro p hp
    obtain ⟨rest, hreads, hwritten⟩ := hmarked p hp
    exact h.event hreads hwritten
  refine ⟨?_, fun r hr => ?_⟩
  · show Node.StandsAll Q (Builder.build (scan src text).events)
    rw [hevents]
    exact (Builder.Stands.feed_marked hstands .empty).nodes
  · obtain ⟨m, rest, hr', hreads, -⟩ := hreports r hr
    rw [hr']
    exact Report.stands_atLocation (h.edge hreads) _

/-- A property of the marks of a text is allowed by all that the text may say. -/
theorem Standing.covers_uniform {P : Location → Prop} {locate : Mark → Location} {text : String}
    (hP : ∀ m : Mark, m.IsOf text → P (locate m)) : (uniform P).Covers locate text where
  event hreads hwritten := by
    have hplace := hP _ hreads.isOf
    cases hwritten <;> exact hplace
  edge hreads := hP _ hreads.isOf

/-- All nodes and reports of a scan stand at marks of the text. -/
theorem located_parse {P : Location → Prop} {src : Source} {text : String}
    (hP : ∀ m : Mark, m.IsOf text → P (src.locate m)) :
    Node.LocatedAll P (parse src text).1 ∧ Report.LocatedAll P (parse src text).2 := by
  rw [← Node.standsAll_uniform, ← Report.standsAll_uniform]
  exact stands_parse (Standing.covers_uniform hP)

end Formwork
