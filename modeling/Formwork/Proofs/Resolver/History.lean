import Mathlib.Data.List.Induction
import Formwork.Proofs.Resolver.Calls

namespace Formwork

/-!
# Histories of calls

The calls that are made on a fresh resolver, one after another. A call is known by its place, and a
block by the call that opened it: the numbers that a resolver gives its blocks start again when the
outermost one closes. What is open, where a definition goes and what a requirement looks at are
read off the calls, and the state after them is shown to agree.

* `Resolver.run_blocks` — the open blocks are those that the calls opened and did not close.
* `Resolver.mem_run_definitions` — the definitions are those that the calls put into blocks of the
  document that is open.
* `Resolver.run_lookup_eq_some_iff` — what is found is the nearest of those that fit.
-/

variable {κ ν τ : Type} [Kind κ]

namespace Resolver

/-- The resolver after some calls. -/
def run (as : List (Action κ ν τ)) : Resolver κ ν τ :=
  as.foldl (fun r a => (r.act a).after) empty

/-- What is decided in some calls, each outcome with the place of the call. -/
def decisions (as : List (Action κ ν τ)) : List (Nat × Outcome ν τ) :=
  as.zipIdx.flatMap fun (a, k) => ((run (as.take k)).act a).outcomes.map (k, ·)

/-- What a call decides, in order. -/
def decidedAt (as : List (Action κ ν τ)) (m : Nat) : List (Outcome ν τ) :=
  as[m]?.elim [] fun a => ((run (as.take m)).act a).outcomes

/-- What a call reports. -/
def report? (as : List (Action κ ν τ)) (k : Nat) : Option Report :=
  as[k]?.bind fun a => ((run (as.take k)).act a).report?

/-- What the open blocks become in a call: pushing opens one, popping closes the innermost. -/
def nest (blocks : List Nat) : Action κ ν τ × Nat → List Nat
  | (.push _, k) => k :: blocks
  | (.pop, _) => blocks.tail
  | _ => blocks

/-- The blocks that are open after some calls, innermost first. -/
def openers (as : List (Action κ ν τ)) : List Nat :=
  as.zipIdx.foldl nest []

/-- The kinds that a block takes. -/
def kindsOf (as : List (Action κ ν τ)) (j : Nat) : List κ :=
  match as[j]? with
  | some (.push kinds) => kinds
  | _ => []

/-- The nearest open block that takes definitions of a kind. -/
def taker? (as : List (Action κ ν τ)) (kind : κ) : Option Nat :=
  (openers as).find? fun j => (kindsOf as j).any fun k => Kind.accepts k kind

/-- Whether a call makes a definition, which goes to the nearest block that takes it. -/
def Stores (as : List (Action κ ν τ)) (k : Nat) (d : Definition κ ν) : Prop :=
  as[k]? = some (.define d.origin d.id d.kind d.value) ∧ report? as k = none ∧
    taker? (as.take k) d.kind = some d.block

/-- Whether a call makes a requirement, which looks at the blocks that are open then. -/
def Asks (as : List (Action κ ν τ)) (i : Nat) (q : Requirement κ τ) : Prop :=
  as[i]? = some (.resolve q.origin q.id q.kind q.tag) ∧ q.path = openers (as.take i)

/-- Whether a call closes the outermost block. -/
def ClosesAll (as : List (Action κ ν τ)) (m : Nat) : Prop :=
  as[m]? = some .pop ∧ (openers (as.take m)).length = 1

/-! ### One call more -/

omit [Kind κ] in
/-- What came before a call is the same when calls follow. -/
theorem take_of_lt (as bs : List (Action κ ν τ)) {k : Nat} (hk : k < as.length) :
    (as ++ bs).take k = as.take k :=
  List.take_append_of_le_length (Nat.le_of_lt hk)

/-- One call more is made on what the others have led to. -/
theorem run_snoc (as : List (Action κ ν τ)) (a : Action κ ν τ) :
    run (as ++ [a]) = ((run as).act a).after := by
  simp [run]

/-- The resolver is sound after all calls. -/
theorem run_sound (as : List (Action κ ν τ)) : (run as).Sound := by
  induction as using List.reverseRecOn with
  | nil => exact .of_empty
  | append_singleton as a ih =>
    rw [run_snoc]
    exact (act_does ih a).sound ih

/-- What the last of some calls does. -/
theorem last_does (as : List (Action κ ν τ)) (a : Action κ ν τ) :
    (run as).Does a ((run as).act a) :=
  act_does (run_sound as) a

/-- One call more decides what it decides, after all else. -/
theorem decisions_snoc (as : List (Action κ ν τ)) (a : Action κ ν τ) :
    decisions (as ++ [a]) = decisions as ++ ((run as).act a).outcomes.map (as.length, ·) := by
  unfold decisions
  rw [List.zipIdx_append, List.flatMap_append]
  congr 1
  · apply List.flatMap_congr
    rintro ⟨b, k⟩ hb
    have hk : k < as.length := by
      have := List.snd_lt_add_of_mem_zipIdx hb
      omega
    simp only [take_of_lt as [a] hk]
  · simp

omit [Kind κ] in
/-- One call more may open or close a block. -/
theorem openers_snoc (as : List (Action κ ν τ)) (a : Action κ ν τ) :
    openers (as ++ [a]) = nest (openers as) (a, as.length) := by
  simp [openers, List.zipIdx_append]

/-- What a call decides does not depend on the calls that follow. -/
theorem decidedAt_append (as bs : List (Action κ ν τ)) {k : Nat} (hk : k < as.length) :
    decidedAt (as ++ bs) k = decidedAt as k := by
  unfold decidedAt
  rw [List.getElem?_append_left hk, take_of_lt as bs hk]

/-- Nor does whether it is reported. -/
theorem report?_append (as bs : List (Action κ ν τ)) {k : Nat} (hk : k < as.length) :
    report? (as ++ bs) k = report? as k := by
  unfold report?
  rw [List.getElem?_append_left hk, take_of_lt as bs hk]

/-- Nor does whether it makes a definition. -/
theorem stores_append (as bs : List (Action κ ν τ)) {k : Nat} (hk : k < as.length)
    (d : Definition κ ν) : Stores (as ++ bs) k d ↔ Stores as k d := by
  unfold Stores
  rw [List.getElem?_append_left hk, report?_append as bs hk, take_of_lt as bs hk]

/-- A definition is made by one of the calls. -/
theorem Stores.lt {as : List (Action κ ν τ)} {k : Nat} {d : Definition κ ν} (h : Stores as k d) :
    k < as.length :=
  (List.getElem?_eq_some_iff.mp h.1).1

/-- The last call makes a definition, or it was made before. -/
theorem stores_snoc (as : List (Action κ ν τ)) (a : Action κ ν τ) (k : Nat) (d : Definition κ ν) :
    Stores (as ++ [a]) k d ↔ Stores as k d ∨
      k = as.length ∧ a = .define d.origin d.id d.kind d.value ∧
        ((run as).act a).report? = none ∧ taker? as d.kind = some d.block := by
  obtain hk | rfl | hk := Nat.lt_trichotomy k as.length
  · have hne : k ≠ as.length := Nat.ne_of_lt hk
    rw [stores_append as [a] hk]
    simp [hne]
  · simp [Stores, report?]
  · have hnot : ¬Stores (as ++ [a]) k d := by
      intro h
      have := h.lt
      simp at this
      omega
    have hnot' : ¬Stores as k d := fun h => Nat.lt_asymm hk h.lt
    simp [hnot, hnot', Nat.ne_of_gt hk]

/-- The last of some calls makes a definition when it is made and not reported. -/
theorem stores_last {as : List (Action κ ν τ)} {a : Action κ ν τ} {d : Definition κ ν} :
    Stores (as ++ [a]) as.length d ↔ a = .define d.origin d.id d.kind d.value ∧
      ((run as).act a).report? = none ∧ taker? as d.kind = some d.block := by
  rw [stores_snoc]
  constructor
  · rintro (hbefore | ⟨-, hlast⟩)
    · exact absurd hbefore.lt (Nat.lt_irrefl _)
    · exact hlast
  · exact fun hlast => .inr ⟨rfl, hlast⟩

omit [Kind κ] in
/-- Whether a call closes the outermost block does not depend on those that follow. -/
theorem closesAll_append (as bs : List (Action κ ν τ)) {m : Nat} (hm : m < as.length) :
    ClosesAll (as ++ bs) m ↔ ClosesAll as m := by
  unfold ClosesAll
  rw [List.getElem?_append_left hm, take_of_lt as bs hm]

/-! ### The open blocks -/

omit [Kind κ] in
/-- An open block was opened by a call. -/
theorem push_of_mem_openers {as : List (Action κ ν τ)} {j : Nat} (hj : j ∈ openers as) :
    ∃ kinds, as[j]? = some (.push kinds) := by
  -- by induction on the calls: the last one opens the block, or the block was open before it
  induction as using List.reverseRecOn with
  | nil => simp [openers] at hj
  | append_singleton as a ih =>
    have hearlier : j ∈ openers as → ∃ kinds, (as ++ [a])[j]? = some (.push kinds) := by
      intro hj
      obtain ⟨kinds, hkinds⟩ := ih hj
      have hlt : j < as.length := (List.getElem?_eq_some_iff.mp hkinds).1
      exact ⟨kinds, by rw [List.getElem?_append_left hlt, hkinds]⟩
    rw [openers_snoc] at hj
    cases a with
    | push kinds =>
      obtain rfl | hj := List.mem_cons.mp hj
      · exact ⟨kinds, by simp⟩
      · exact hearlier hj
    | pop => exact hearlier (List.mem_of_mem_tail hj)
    | define => exact hearlier hj
    | resolve => exact hearlier hj

omit [Kind κ] in
/-- A block that is open was opened by one of the calls. -/
theorem lt_of_mem_openers {as : List (Action κ ν τ)} {j : Nat} (hj : j ∈ openers as) :
    j < as.length := by
  obtain ⟨kinds, hkinds⟩ := push_of_mem_openers hj
  exact (List.getElem?_eq_some_iff.mp hkinds).1

omit [Kind κ] in
/-- The inner a block, the later it was opened. -/
theorem openers_pairwise (as : List (Action κ ν τ)) : (openers as).Pairwise (· > ·) := by
  induction as using List.reverseRecOn with
  | nil => exact List.Pairwise.nil
  | append_singleton as a ih =>
    rw [openers_snoc]
    cases a with
    | push kinds => exact List.pairwise_cons.mpr ⟨fun j hj => lt_of_mem_openers hj, ih⟩
    | pop => exact ih.tail
    | define => exact ih
    | resolve => exact ih

omit [Kind κ] in
/-- A block that is open after a call is the one it opened, or was open before it. -/
theorem mem_openers_snoc {as : List (Action κ ν τ)} {a : Action κ ν τ} {j : Nat}
    (hj : j ∈ openers (as ++ [a])) : j = as.length ∨ j ∈ openers as := by
  rw [openers_snoc] at hj
  cases a with
  | push kinds => exact List.mem_cons.mp hj
  | pop => exact .inr (List.mem_of_mem_tail hj)
  | define => exact .inr hj
  | resolve => exact .inr hj

omit [Kind κ] in
/-- A block that is open was open at all times since it was opened. -/
theorem mem_openers_take {as : List (Action κ ν τ)} {j n : Nat} (hj : j ∈ openers as)
    (hn : j < n) : j ∈ openers (as.take n) := by
  induction as using List.reverseRecOn with
  | nil => simp [openers] at hj
  | append_singleton as a ih =>
    by_cases hle : n ≤ as.length
    · rw [List.take_append_of_le_length hle]
      obtain rfl | hj := mem_openers_snoc hj
      · omega
      · exact ih hj
    · rw [List.take_of_length_le (by simp; omega)]
      exact hj

omit [Kind κ] in
/-- The last call closes the outermost block when it closes a block and only that one is open. -/
theorem closesAll_last {as : List (Action κ ν τ)} {a : Action κ ν τ} :
    ClosesAll (as ++ [a]) as.length ↔ a = .pop ∧ (openers as).length = 1 := by
  simp [ClosesAll]

omit [Kind κ] in
/-- Only popping closes the outermost block. -/
theorem not_closesAll_last {as : List (Action κ ν τ)} {a : Action κ ν τ} (ha : a ≠ .pop) :
    ¬ClosesAll (as ++ [a]) as.length :=
  fun hclose => ha (closesAll_last.mp hclose).1

omit [Kind κ] in
/-- When the outermost block has closed, no block is open. -/
theorem ClosesAll.openers {as : List (Action κ ν τ)} {m : Nat} (hm : ClosesAll as m) :
    openers (as.take (m + 1)) = [] := by
  obtain ⟨hpop, hlength⟩ := hm
  rw [List.take_add_one, hpop, Option.toList_some, openers_snoc]
  exact List.eq_nil_of_length_eq_zero (by simp [nest, hlength])

omit [Kind κ] in
/-- When the outermost block has closed, what was open before is not open again. -/
theorem ClosesAll.not_mem_openers {as : List (Action κ ν τ)} {m j : Nat} (hm : ClosesAll as m)
    (hj : j ≤ m) : j ∉ Resolver.openers as := by
  intro hopen
  have hstill := mem_openers_take hopen (Nat.lt_succ_of_le hj)
  rw [hm.openers] at hstill
  exact List.not_mem_nil hstill

/-! ### The blocks of the document -/

/-- The number of a block. -/
def number (as : List (Action κ ν τ)) (j : Nat) : Nat := (run (as.take j)).next

/-- Whether a block belongs to the document that is open: it was not opened before the outermost
    block that is open now. -/
def Within (as : List (Action κ ν τ)) (j : Nat) : Prop := ∃ s ∈ openers as, s ≤ j

omit [Kind κ] in
/-- A block that is open belongs to the document. -/
theorem within_of_mem_openers {as : List (Action κ ν τ)} {j : Nat} (hj : j ∈ openers as) :
    Within as j :=
  ⟨j, hj, Nat.le_refl j⟩

omit [Kind κ] in
/-- Unless it closes the outermost block, a call leaves the earlier blocks of the document as they
    are. -/
theorem within_snoc {as : List (Action κ ν τ)} {a : Action κ ν τ} {j : Nat} (hj : j < as.length)
    (hopen : ¬ClosesAll (as ++ [a]) as.length) : Within (as ++ [a]) j ↔ Within as j := by
  rw [closesAll_last] at hopen
  have hsorted := openers_pairwise as
  unfold Within
  rw [openers_snoc]
  cases a with
  | push kinds =>
    show (∃ s ∈ as.length :: openers as, s ≤ j) ↔ _
    simp [Nat.not_le_of_lt hj]
  | pop =>
    show (∃ s ∈ (openers as).tail, s ≤ j) ↔ _
    cases ho : openers as with
    | nil => rfl
    | cons b blocks =>
      cases blocks with
      | nil => simp [ho] at hopen
      | cons c blocks =>
        -- a block opened before the innermost one is still open, and stands in for it
        rw [ho] at hsorted
        have hcb : c < b := List.rel_of_pairwise_cons hsorted List.mem_cons_self
        constructor
        · rintro ⟨s, hs, hle⟩
          exact ⟨s, List.mem_cons_of_mem b hs, hle⟩
        · rintro ⟨s, hs, hle⟩
          obtain rfl | hs := List.mem_cons.mp hs
          · exact ⟨c, List.mem_cons_self, by omega⟩
          · exact ⟨s, hs, hle⟩
  | define => rfl
  | resolve => rfl

/-- The number of a block does not depend on the calls that follow. -/
theorem number_append (as bs : List (Action κ ν τ)) {j : Nat} (hj : j ≤ as.length) :
    number (as ++ bs) j = number as j := by
  unfold number
  rw [List.take_append_of_le_length hj]

/-- The block that a resolver has for a block that the calls opened. -/
def blockOf (as : List (Action κ ν τ)) (j : Nat) : Block κ :=
  { number := number as j, kinds := kindsOf as j }

/-- Nor does the block as the resolver has it. -/
theorem blockOf_append (as bs : List (Action κ ν τ)) {j : Nat} (hj : j < as.length) :
    blockOf (as ++ bs) j = blockOf as j := by
  unfold blockOf kindsOf
  rw [number_append as bs (Nat.le_of_lt hj), List.getElem?_append_left hj]

/-- A block that has just been opened has the next number. -/
theorem blockOf_last (as : List (Action κ ν τ)) (kinds : List κ) :
    blockOf (as ++ [.push kinds]) as.length = { number := (run as).next, kinds } := by
  simp [blockOf, number, kindsOf]

/-- What a call makes of the blocks. -/
theorem Does.blocks {r : Resolver κ ν τ} {a : Action κ ν τ} {e : Effect κ ν τ}
    (hdoes : r.Does a e) :
    e.after.blocks =
      match a with
      | .push kinds => { number := r.next, kinds } :: r.blocks
      | .pop => r.blocks.tail
      | _ => r.blocks := by
  cases hdoes with
  | opens | refuses | stores | finds | fails | waits => rfl
  | popsNothing hnone => simp [hnone]
  | closesLast b hlast => simp [hlast, empty]
  | closes b blocks _ hfirst => simp [hfirst]

/-- **The open blocks** of the resolver are those that the calls opened and did not close. -/
theorem run_blocks (as : List (Action κ ν τ)) :
    (run as).blocks = (openers as).map (blockOf as) := by
  induction as using List.reverseRecOn with
  | nil => rfl
  | append_singleton as a ih =>
    -- a block keeps its number, which is read off the calls before it
    have hsame : (openers as).map (blockOf (as ++ [a])) = (run as).blocks := by
      rw [ih]
      exact List.map_congr_left fun j hj => blockOf_append as [a] (lt_of_mem_openers hj)
    rw [run_snoc, (last_does as a).blocks, openers_snoc]
    cases a with
    | push kinds =>
      show _ = blockOf (as ++ [.push kinds]) as.length :: _
      rw [blockOf_last, hsame]
    | pop =>
      show _ = (openers as).tail.map _
      rw [List.map_tail, hsame]
    | define => exact hsame.symm
    | resolve => exact hsame.symm

/-- The path of the resolver consists of the numbers of the open blocks. -/
theorem run_path (as : List (Action κ ν τ)) : (run as).path = (openers as).map (number as) := by
  rw [path, run_blocks, List.map_map]
  rfl

/-- The resolver has no block open when the calls have left none open. -/
theorem run_blocks_eq_nil_iff (as : List (Action κ ν τ)) :
    (run as).blocks = [] ↔ openers as = [] := by
  rw [run_blocks, List.map_eq_nil_iff]

/-- The resolver has as many blocks open as the calls have left open. -/
theorem run_blocks_length (as : List (Action κ ν τ)) :
    (run as).blocks.length = (openers as).length := by
  rw [run_blocks, List.length_map]

/-- A definition goes to the block that the calls say. -/
theorem run_accepting? (as : List (Action κ ν τ)) (kind : κ) :
    (run as).accepting? kind = (taker? as kind).map (blockOf as) := by
  rw [accepting?, run_blocks, List.find?_map]
  rfl

/-! ### Closing the outermost block -/

/-- When the outermost block closes, the resolver starts afresh. -/
theorem run_of_closesAll {as : List (Action κ ν τ)} {a : Action κ ν τ}
    (hclose : ClosesAll (as ++ [a]) as.length) : run (as ++ [a]) = empty := by
  obtain ⟨rfl, hone⟩ := closesAll_last.mp hclose
  rw [← run_blocks_length] at hone
  obtain ⟨b, hb⟩ := List.length_eq_one_iff.mp hone
  rw [run_snoc]
  simp [act, pop, hb]

omit [Kind κ] in
/-- Then no block belongs to the document any more. -/
theorem not_within_of_closesAll {as : List (Action κ ν τ)} {a : Action κ ν τ}
    (hclose : ClosesAll (as ++ [a]) as.length) (j : Nat) : ¬Within (as ++ [a]) j := by
  have hnone := hclose.openers
  rw [List.take_of_length_le (by simp)] at hnone
  simp [Within, hnone]

/-- Numbers only start again when the outermost block closes. -/
theorem next_le_next {as : List (Action κ ν τ)} {a : Action κ ν τ}
    (hopen : ¬ClosesAll (as ++ [a]) as.length) : (run as).next ≤ (run (as ++ [a])).next := by
  have hdoes := last_does as a
  rw [closesAll_last, ← run_blocks_length] at hopen
  rw [run_snoc]
  generalize (run as).act a = e at hdoes
  cases hdoes with
  | opens => exact Nat.le_succ _
  | closesLast b hlast => simp [hlast] at hopen
  | popsNothing | closes | refuses | stores | finds | fails | waits => exact Nat.le_refl _

/-! ### The numbers of blocks -/

/-- The number of a block of the document is used up. -/
theorem number_lt_next {as : List (Action κ ν τ)} {j : Nat} {kinds : List κ}
    (hpush : as[j]? = some (.push kinds)) (hj : Within as j) :
    number as j < (run as).next := by
  induction as using List.reverseRecOn with
  | nil => simp at hpush
  | append_singleton as a ih =>
    have hle : j < as.length + 1 := by simpa using (List.getElem?_eq_some_iff.mp hpush).1
    obtain hlt | rfl := Nat.lt_or_eq_of_le (Nat.le_of_lt_succ hle)
    · by_cases hclose : ClosesAll (as ++ [a]) as.length
      · exact absurd hj (not_within_of_closesAll hclose j)
      · rw [List.getElem?_append_left hlt] at hpush
        rw [number_append as [a] (Nat.le_of_lt hlt)]
        exact Nat.lt_of_lt_of_le (ih hpush ((within_snoc hlt hclose).mp hj)) (next_le_next hclose)
    · -- the last call opens the block
      obtain rfl : a = .push kinds := by simpa using hpush
      rw [run_snoc, number_append as _ (Nat.le_refl _)]
      simp [number, act, push]

/-- Of two blocks of the document the later one has the greater number. -/
theorem number_lt_number {as : List (Action κ ν τ)} {j l : Nat} {kinds : List κ}
    (hpush : as[j]? = some (.push kinds)) (hj : Within as j) (hjl : j < l) :
    number as j < number as l := by
  have hpush' : (as.take l)[j]? = some (.push kinds) := by
    rw [List.getElem?_take_of_lt hjl, hpush]
  have hin : Within (as.take l) j := by
    obtain ⟨s, hs, hle⟩ := hj
    exact ⟨s, mem_openers_take hs (Nat.lt_of_le_of_lt hle hjl), hle⟩
  have hbefore := number_lt_next hpush' hin
  have hsame : number (as.take l) j = number as j := by
    unfold number
    rw [List.take_take, Nat.min_eq_left (Nat.le_of_lt hjl)]
  rwa [hsame] at hbefore

/-- Whether a place is that of a block of the document. -/
def IsBlock (as : List (Action κ ν τ)) (j : Nat) : Prop :=
  Within as j ∧ ∃ kinds, as[j]? = some (.push kinds)

/-- Blocks of the document have different numbers, in the order in which they were opened. -/
theorem IsBlock.number_le_iff {as : List (Action κ ν τ)} {j l : Nat} (hj : IsBlock as j)
    (hl : IsBlock as l) : number as j ≤ number as l ↔ j ≤ l := by
  obtain ⟨hjin, _, hjpush⟩ := hj
  obtain ⟨hlin, _, hlpush⟩ := hl
  constructor
  · intro hle
    by_contra hlt
    have := number_lt_number hlpush hlin (Nat.lt_of_not_le hlt)
    omega
  · intro hle
    obtain hlt | rfl := Nat.lt_or_eq_of_le hle
    · exact Nat.le_of_lt (number_lt_number hjpush hjin hlt)
    · exact Nat.le_refl _

/-- In a document no two blocks have the same number. -/
theorem IsBlock.number_eq_iff {as : List (Action κ ν τ)} {j l : Nat} (hj : IsBlock as j)
    (hl : IsBlock as l) : number as j = number as l ↔ j = l := by
  have hjl := hj.number_le_iff hl
  have hlj := hl.number_le_iff hj
  omega

omit [Kind κ] in
/-- An open block is a block of the document. -/
theorem isBlock_of_mem_openers {as : List (Action κ ν τ)} {j : Nat} (hj : j ∈ openers as) :
    IsBlock as j :=
  ⟨within_of_mem_openers hj, push_of_mem_openers hj⟩

omit [Kind κ] in
/-- So are the blocks on the way up from here. -/
theorem isBlock_of_openers {as : List (Action κ ν τ)} {path : List Nat}
    (hpath : path = openers as) : ∀ j ∈ path, IsBlock as j :=
  fun _ hj => isBlock_of_mem_openers (hpath ▸ hj)

omit [Kind κ] in
/-- A block of the document stays one until the outermost block closes. -/
theorem isBlock_snoc {as : List (Action κ ν τ)} {a : Action κ ν τ} {j : Nat} (hj : IsBlock as j)
    (hopen : ¬ClosesAll (as ++ [a]) as.length) : IsBlock (as ++ [a]) j := by
  obtain ⟨hin, kinds, hpush⟩ := hj
  have hlt : j < as.length := (List.getElem?_eq_some_iff.mp hpush).1
  exact ⟨(within_snoc hlt hopen).mpr hin, kinds, by rw [List.getElem?_append_left hlt, hpush]⟩

/-! ### The definitions -/

/-- A definition goes to a block that is open. -/
theorem Stores.mem_openers {as : List (Action κ ν τ)} {k : Nat} {d : Definition κ ν}
    (h : Stores as k d) : d.block ∈ openers (as.take k) :=
  List.mem_of_find?_eq_some h.2.2

/-- A definition that has just been made is in an open block. -/
theorem mem_openers_of_stores_last {as : List (Action κ ν τ)} {a : Action κ ν τ}
    {d : Definition κ ν} (h : Stores (as ++ [a]) as.length d) : d.block ∈ openers as :=
  List.mem_of_find?_eq_some (stores_last.mp h).2.2

/-- A definition is in a block that was opened before it was made. -/
theorem Stores.block_lt {as : List (Action κ ν τ)} {k : Nat} {d : Definition κ ν}
    (h : Stores as k d) : d.block < k := by
  have := lt_of_mem_openers h.mem_openers
  simp only [List.length_take] at this
  omega

/-- The block of a definition was opened by a call. -/
theorem Stores.push {as : List (Action κ ν τ)} {k : Nat} {d : Definition κ ν}
    (h : Stores as k d) : ∃ kinds, as[d.block]? = some (.push kinds) := by
  obtain ⟨kinds, hkinds⟩ := push_of_mem_openers h.mem_openers
  exact ⟨kinds, by rwa [List.getElem?_take_of_lt h.block_lt] at hkinds⟩

/-- A definition with the number that its block has for the resolver. -/
def placed (as : List (Action κ ν τ)) (d : Definition κ ν) : Definition κ ν :=
  { d with block := number as d.block }

/-- The last call of some makes a definition exactly when it stores one. -/
theorem last_stores_iff {as : List (Action κ ν τ)} {a : Action κ ν τ} (k : Nat)
    (d : Definition κ ν) : Stores (as ++ [a]) k d ↔ Stores as k d ∨
      k = as.length ∧ Stores (as ++ [a]) as.length d := by
  rw [stores_snoc, stores_last]

/-- A call makes at most one definition. -/
theorem Stores.unique {as : List (Action κ ν τ)} {k : Nat} {d e : Definition κ ν}
    (hd : Stores as k d) (he : Stores as k e) : d = e := by
  obtain ⟨hda, -, hdblock⟩ := hd
  obtain ⟨hea, -, heblock⟩ := he
  rw [hda] at hea
  injection hea with hea
  injection hea with horigin hid hkind hvalue
  rw [hkind, heblock] at hdblock
  injection hdblock with hblock
  show d = Definition.mk e.block e.id e.kind e.value e.origin
  rw [hblock, ← hid, ← hkind, ← hvalue, ← horigin]

/-- A call that makes a definition is a define call. -/
theorem not_stores_last {as : List (Action κ ν τ)} {a : Action κ ν τ}
    (hother : ∀ origin id kind value, a ≠ .define origin id kind value) (d : Definition κ ν) :
    ¬Stores (as ++ [a]) as.length d := by
  intro hd
  obtain ⟨rfl, -⟩ := stores_last.mp hd
  exact hother _ _ _ _ rfl

/-- What the resolver takes in is what the call stores, in the block that the calls say. -/
theorem exists_stores {as : List (Action κ ν τ)} {b : Block κ} {d : Definition κ ν}
    (hblock : d.block = b.number) (htaken : (run as).accepting? d.kind = some b)
    (hreport : ((run as).act (.define d.origin d.id d.kind d.value)).report? = none) :
    ∃ e, Stores (as ++ [.define d.origin d.id d.kind d.value]) as.length e ∧ d = placed as e := by
  rw [run_accepting?] at htaken
  obtain ⟨j, hj, rfl⟩ := Option.map_eq_some_iff.mp htaken
  have hnumber : d.block = number as j := hblock
  refine ⟨{ d with block := j }, stores_last.mpr ⟨rfl, hreport, hj⟩, ?_⟩
  show d = Definition.mk (number as j) d.id d.kind d.value d.origin
  rw [← hnumber]

/-- A call that makes a definition takes it in, and decides what it meets. -/
theorem act_of_stores {as : List (Action κ ν τ)} {a : Action κ ν τ} {d : Definition κ ν}
    (hd : Stores (as ++ [a]) as.length d) :
    ((run as).act a).after = (run as).store (placed as d) ∧
      ((run as).act a).outcomes.Perm
        (((run as).waiting.filter fun q => q.MetBy (placed as d)).map (delivered d)) := by
  obtain ⟨ha, hreport, -⟩ := stores_last.mp hd
  have hdoes := last_does as a
  generalize heffect : (run as).act a = effect at hdoes hreport
  cases hdoes with
  | stores b e outcomes hblock htaken _ hmet =>
    obtain ⟨e, he, rfl⟩ := exists_stores hblock htaken (by rw [heffect])
    obtain rfl := he.unique hd
    exact ⟨rfl, hmet⟩
  | refuses => simp at hreport
  | opens | popsNothing | closesLast | closes | finds | fails | waits => simp at ha

/-- What a call makes of the definitions. -/
theorem run_definitions_snoc (as : List (Action κ ν τ)) (a : Action κ ν τ)
    (hopen : ¬ClosesAll (as ++ [a]) as.length) (e : Definition κ ν) :
    e ∈ (run (as ++ [a])).definitions ↔ e ∈ (run as).definitions ∨
      ∃ d, Stores (as ++ [a]) as.length d ∧ e = placed as d := by
  have hdoes := last_does as a
  have hstores : ∀ d, Stores (as ++ [a]) as.length d ↔
      a = .define d.origin d.id d.kind d.value ∧ ((run as).act a).report? = none ∧
        taker? as d.kind = some d.block := fun _ => stores_last
  rw [closesAll_last, ← run_blocks_length] at hopen
  rw [run_snoc]
  generalize heffect : (run as).act a = effect at hdoes hstores
  -- a definition is added in one case; it goes in another, when the outermost block closes, and
  -- that one is excluded
  cases hdoes with
  | stores b d outcomes hblock htaken hnew _ =>
    obtain ⟨d, hd, rfl⟩ := exists_stores hblock htaken (by rw [heffect])
    show e ∈ (run as).definitions ++ [placed as d] ↔ _
    rw [List.mem_append, List.mem_singleton]
    refine or_congr_right ⟨fun he => ⟨d, hd, he⟩, ?_⟩
    rintro ⟨d', hd', rfl⟩
    rw [hd.unique hd']
  | closesLast b hlast => simp [hlast] at hopen
  | opens => simp [hstores, push]
  | popsNothing | closes | refuses | finds | fails | waits => simp [hstores]

/-- **The definitions** of the resolver are those that the calls put into blocks of the document
    that is open. -/
theorem mem_run_definitions (as : List (Action κ ν τ)) (e : Definition κ ν) :
    e ∈ (run as).definitions ↔
      ∃ k d, Stores as k d ∧ Within as d.block ∧ e = placed as d := by
  induction as using List.reverseRecOn generalizing e with
  | nil => simp [run, empty, Stores]
  | append_singleton as a ih =>
    by_cases hclose : ClosesAll (as ++ [a]) as.length
    · -- the resolver starts afresh, and no earlier block is of the open document
      rw [run_of_closesAll hclose]
      simp [empty, not_within_of_closesAll hclose]
    · -- a definition made so far keeps its number, and stays in the open document
      have hkept : ∀ k d, Stores (as ++ [a]) k d →
          placed (as ++ [a]) d = placed as d ∧
            (Within (as ++ [a]) d.block ↔ Within as d.block) := by
        intro k d hd
        have hlt : d.block < as.length := by
          have := hd.lt
          have := hd.block_lt
          simp at *
          omega
        refine ⟨?_, within_snoc hlt hclose⟩
        rw [placed, placed, number_append as [a] (Nat.le_of_lt hlt)]
      rw [run_definitions_snoc as a hclose, ih]
      constructor
      · rintro (⟨k, d, hd, hin, rfl⟩ | ⟨d, hd, rfl⟩)
        · have hd : Stores (as ++ [a]) k d := (last_stores_iff k d).mpr (.inl hd)
          obtain ⟨hplace, hwithin⟩ := hkept k d hd
          exact ⟨k, d, hd, hwithin.mpr hin, hplace.symm⟩
        · obtain ⟨hplace, hwithin⟩ := hkept _ d hd
          have hopen := mem_openers_of_stores_last hd
          exact ⟨_, d, hd, hwithin.mpr (within_of_mem_openers hopen), hplace.symm⟩
      · rintro ⟨k, d, hd, hin, rfl⟩
        obtain ⟨hplace, hwithin⟩ := hkept k d hd
        obtain hbefore | ⟨-, hlast⟩ := (last_stores_iff k d).mp hd
        · exact .inl ⟨k, d, hbefore, hwithin.mp hin, hplace⟩
        · exact .inr ⟨d, hlast, hplace⟩

/-! ### Looking up -/

/-- A definition that is made in some calls and meets a requirement. -/
def Fits (as : List (Action κ ν τ)) (q : Requirement κ τ) (k : Nat) (d : Definition κ ν) : Prop :=
  Stores as k d ∧ q.MetBy d

/-- A requirement with the numbers that its blocks have for the resolver. -/
def placedRequirement (as : List (Action κ ν τ)) (q : Requirement κ τ) : Requirement κ τ :=
  { q with path := q.path.map (number as) }

/-- Whether a definition fits a requirement does not depend on the calls that follow. -/
theorem fits_append (as bs : List (Action κ ν τ)) (q : Requirement κ τ) {k : Nat}
    (hk : k < as.length) (d : Definition κ ν) : Fits (as ++ bs) q k d ↔ Fits as q k d :=
  and_congr_left' (stores_append as bs hk d)

/-- What fits was made by one of the calls. -/
theorem Fits.lt {as : List (Action κ ν τ)} {q : Requirement κ τ} {k : Nat} {d : Definition κ ν}
    (h : Fits as q k d) : k < as.length :=
  h.1.lt

/-- Later calls do not change the numbers of the blocks around a requirement. -/
theorem placedRequirement_append {as bs : List (Action κ ν τ)} {q : Requirement κ τ}
    (hblocks : ∀ j ∈ q.path, j < as.length) :
    placedRequirement (as ++ bs) q = placedRequirement as q := by
  have hpath : q.path.map (number (as ++ bs)) = q.path.map (number as) :=
    List.map_congr_left fun j hj => number_append as bs (Nat.le_of_lt (hblocks j hj))
  rw [placedRequirement, placedRequirement, hpath]

/-- Numbers tell whether a definition meets a requirement as the calls that opened the blocks do. -/
theorem metBy_placed_iff {as : List (Action κ ν τ)} {q : Requirement κ τ} {d : Definition κ ν}
    (hq : ∀ j ∈ q.path, IsBlock as j) (hd : IsBlock as d.block) :
    (placedRequirement as q).MetBy (placed as d) ↔ q.MetBy d := by
  have hpath : number as d.block ∈ q.path.map (number as) ↔ d.block ∈ q.path := by
    rw [List.mem_map]
    constructor
    · rintro ⟨j, hj, hnumber⟩
      rwa [← ((hq j hj).number_eq_iff hd).mp hnumber]
    · intro hj
      exact ⟨d.block, hj, rfl⟩
  exact and_congr_right' (and_congr_left' hpath)

/-- The definitions of the resolver that meet a requirement are those that fit it. -/
theorem met_definition_iff {as : List (Action κ ν τ)} {q : Requirement κ τ}
    (hq : ∀ j ∈ q.path, IsBlock as j) (e : Definition κ ν) :
    (e ∈ (run as).definitions ∧ (placedRequirement as q).MetBy e) ↔
      ∃ k d, Fits as q k d ∧ e = placed as d := by
  rw [mem_run_definitions]
  constructor
  · rintro ⟨⟨k, d, hd, hin, rfl⟩, hmet⟩
    exact ⟨k, d, ⟨hd, (metBy_placed_iff hq ⟨hin, hd.push⟩).mp hmet⟩, rfl⟩
  · rintro ⟨k, d, ⟨hd, hmet⟩, rfl⟩
    have hblock : IsBlock as d.block := hq d.block hmet.2.1
    exact ⟨⟨k, d, hd, hblock.1, rfl⟩, (metBy_placed_iff hq hblock).mpr hmet⟩

/-- Nothing is found for a requirement exactly when nothing fits it. -/
theorem run_lookup_eq_none_iff {as : List (Action κ ν τ)} {q : Requirement κ τ}
    (hq : ∀ j ∈ q.path, IsBlock as j) :
    (run as).lookup (placedRequirement as q).path q.id q.kind = none ↔
      ∀ k d, ¬Fits as q k d := by
  have hunmet := (run_sound as).unmet_iff (placedRequirement as q)
  refine hunmet.trans ⟨?_, ?_⟩
  · intro hnone k d hd
    obtain ⟨hmem, hmet⟩ := (met_definition_iff hq (placed as d)).mpr ⟨k, d, hd, rfl⟩
    exact hnone _ hmem hmet
  · intro hnone e he hmet
    obtain ⟨k, d, hd, -⟩ := (met_definition_iff hq e).mp ⟨he, hmet⟩
    exact hnone k d hd

/-- **The nearest of those that fit** is what is found for a requirement where it is made. -/
theorem run_lookup_eq_some_iff {as : List (Action κ ν τ)} {q : Requirement κ τ}
    (hq : q.path = openers as) (v : ν) :
    (run as).lookup (run as).path q.id q.kind = some v ↔
      ∃ k d, Fits as q k d ∧ d.value = v ∧ ∀ l e, Fits as q l e → e.block ≤ d.block := by
  have hblocks := isBlock_of_openers hq
  have hpath : (placedRequirement as q).path = (run as).path := by
    rw [run_path, ← hq]
    rfl
  have hnearest := (run_sound as).nearest_iff (q := placedRequirement as q) (v := v)
    (hpath ▸ (run_sound as).innermostFirst)
  rw [hpath] at hnearest
  -- the resolver compares the numbers of blocks, and in a document these are in the order of the
  -- calls that opened them
  refine hnearest.trans ⟨?_, ?_⟩
  · rintro ⟨e, he, hmet, hv, hmax⟩
    obtain ⟨k, d, hd, rfl⟩ := (met_definition_iff hblocks e).mp ⟨he, hmet⟩
    refine ⟨k, d, hd, hv, fun l f hf => ?_⟩
    obtain ⟨hmem, hfmet⟩ := (met_definition_iff hblocks (placed as f)).mpr ⟨l, f, hf, rfl⟩
    exact ((hblocks _ hf.2.2.1).number_le_iff (hblocks _ hd.2.2.1)).mp (hmax _ hmem hfmet)
  · rintro ⟨k, d, hd, hv, hmax⟩
    obtain ⟨hmem, hmet⟩ := (met_definition_iff hblocks (placed as d)).mpr ⟨k, d, hd, rfl⟩
    refine ⟨placed as d, hmem, hmet, hv, fun e he hemet => ?_⟩
    obtain ⟨l, f, hf, rfl⟩ := (met_definition_iff hblocks e).mp ⟨he, hemet⟩
    exact ((hblocks _ hf.2.2.1).number_le_iff (hblocks _ hd.2.2.1)).mpr (hmax l f hf)

/-- A requirement that is made in a block receives the nearest definition that fits, or waits when
    there is none. -/
theorem act_of_asks {as : List (Action κ ν τ)} {q : Requirement κ τ} (hq : q.path = openers as)
    (hopen : q.path ≠ []) :
    (∃ k d, Fits as q k d ∧ (∀ l e, Fits as q l e → e.block ≤ d.block) ∧
      (run as).act (.resolve q.origin q.id q.kind q.tag)
        = { after := run as, outcomes := [delivered d q] }) ∨
    (∀ k d, ¬Fits as q k d) ∧
      (run as).act (.resolve q.origin q.id q.kind q.tag)
        = { after :=
              { run as with waiting := (run as).waiting ++ [placedRequirement as q] } } := by
  have hdoes := last_does as (.resolve q.origin q.id q.kind q.tag)
  generalize (run as).act (.resolve q.origin q.id q.kind q.tag) = e at hdoes
  -- a block is open, so the call finds a value or waits
  cases hdoes with
  | finds _ _ _ _ value hfound =>
    obtain ⟨k, d, hd, rfl, hnearest⟩ := (run_lookup_eq_some_iff hq value).mp hfound
    exact .inl ⟨k, d, hd, hnearest, rfl⟩
  | fails _ _ _ _ hnone =>
    rw [run_blocks_eq_nil_iff, ← hq] at hnone
    exact absurd hnone hopen
  | waits _ _ _ _ _ hunmet =>
    have hblocks := isBlock_of_openers hq
    have hplace : (run as).required q.origin q.id q.kind q.tag = placedRequirement as q := by
      rw [required, placedRequirement, run_path, ← hq]
    rw [hplace]
    refine .inr ⟨?_, rfl⟩
    rw [← run_lookup_eq_none_iff hblocks, ← hplace]
    exact hunmet

end Resolver

end Formwork
