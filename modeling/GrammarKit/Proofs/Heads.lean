/-
Module: GrammarKit.Proofs.Heads
Purpose: The parsers that a parser may run before any input is taken.  The start sets of validation follow
  all of them but one: the separator of a list after an element that matches without input.  So a validated
  program may have circles, but only through such a separator, and without any its parsers can be ranked.
Main exports: Program.Head, Program.NoHiddenCircle, Program.acyclic_iff, Program.exists_height
-/
import GrammarKit.Proofs.ParserOrder
import GrammarKit.Proofs.StartSets

namespace GrammarKit

open Relation (TransGen ReflTransGen)

/-- The parsers that an operator may run before any input is taken, as far as start sets follow them. -/
def Operator.startHeads (nullable : Array Bool) : Operator → List ParserId
  | .seq items => Program.reachableItems nullable items
  | .list element separator style _ => if style.leading then [element, separator] else [element]
  | operator => operator.parts

/-- The parsers that an operator may run before any input is taken but that start sets leave out: the
separator of a list, where the element before it may match without input. -/
def Operator.hiddenHeads (nullable : Array Bool) : Operator → List ParserId
  | .list element separator style _ =>
      if !style.leading && Program.isMarked nullable element then [separator] else []
  | _ => []

/-- The parsers that an operator may run before any input is taken. -/
def Operator.heads (nullable : Array Bool) (operator : Operator) : List ParserId :=
  operator.startHeads nullable ++ operator.hiddenHeads nullable

theorem Program.reachableItems_subset (nullable : Array Bool) (items : List Item) :
    reachableItems nullable items ⊆ items.map Item.parser := by
  induction items with
  | nil => exact List.Subset.refl _
  | cons item items ih =>
    rw [reachableItems, List.map_cons]
    refine List.cons_subset_cons _ ?_
    split
    · exact ih
    · exact List.nil_subset _

theorem Operator.startHeads_subset (nullable : Array Bool) (operator : Operator) :
    operator.startHeads nullable ⊆ operator.parts := by
  cases operator with
  | seq items => exact Program.reachableItems_subset nullable items
  | list element separator style _ =>
    simp only [startHeads, parts]
    split <;> simp
  | _ => exact List.Subset.refl _

theorem Operator.heads_subset (nullable : Array Bool) (operator : Operator) :
    operator.heads nullable ⊆ operator.parts := by
  refine List.append_subset.mpr ⟨operator.startHeads_subset nullable, ?_⟩
  cases operator with
  | list element separator style _ =>
    simp only [hiddenHeads, parts]
    split <;> simp
  | _ => exact List.nil_subset _

namespace Program

variable {p : Program} {nullable : Array Bool}

/-- A parser may run another one before any input is taken. -/
def Head (p : Program) (id part : ParserId) : Prop :=
  ∃ operator, p.operator? id = some operator ∧ part ∈ operator.heads p.nullability

/-- A parser may run another one before any input is taken, and start sets follow it there. -/
def StartHead (p : Program) (id part : ParserId) : Prop :=
  ∃ operator, p.operator? id = some operator ∧ part ∈ operator.startHeads p.nullability

/-- A parser may run another one before any input is taken, but start sets do not follow it there. -/
def HiddenHead (p : Program) (id part : ParserId) : Prop :=
  ∃ operator, p.operator? id = some operator ∧ part ∈ operator.hiddenHeads p.nullability

theorem head_iff {id part : ParserId} : p.Head id part ↔ p.StartHead id part ∨ p.HiddenHead id part := by
  simp only [Head, StartHead, HiddenHead, Operator.heads, List.mem_append, ← exists_or, and_or_left]

/-- No parser that start sets leave out leads back to the list that it is the separator of. -/
def NoHiddenCircle (p : Program) : Prop :=
  ∀ ⦃id part⦄, p.HiddenHead id part → ¬ ReflTransGen p.Head part id

theorem exists_operator {id : ParserId} {operator : Operator} (here : p.operator? id = some operator) :
    ∃ parser, p.parsers[id]? = some parser ∧ parser.operator = operator :=
  Option.map_eq_some_iff.mp here

/-! ### Start sets -/

theorem isSlot_iff {id : ParserId} : p.draft.IsSlot id ↔ ∃ index, p.slotIndex? id = some index := by
  constructor
  · rintro ⟨name, member⟩
    exact exists_slotIndex member
  · rintro ⟨index, found⟩
    obtain ⟨name, here⟩ := slotIndex?_eq_some found
    exact ⟨name, List.mem_of_getElem? here⟩

/-- The start set of a call is the slot that it calls. -/
theorem startSet_call {id target : ParserId} {index : Nat} (here : p.operator? id = some (.call target))
    (found : p.slotIndex? target = some index) (fuel : Nat) :
    p.startSet nullable (fuel + 1) id = [index] := by
  simp only [startSet, here, found]

/-- The start set of any other parser is made of those of its heads. -/
theorem startSet_parts {id : ParserId} {operator : Operator} (here : p.operator? id = some operator)
    (other : ∀ target, operator ≠ .call target) (fuel : Nat) :
    p.startSet nullable (fuel + 1) id = (operator.startHeads nullable).flatMap (p.startSet nullable fuel) := by
  cases operator with
  | call target => exact absurd rfl (other target)
  | backref name default => cases default <;> simp [startSet, here, Operator.startHeads, Operator.parts]
  | _ => simp [startSet, here, Operator.startHeads, Operator.parts]

section Ordered

variable (ordered : p.InOrder)
include ordered

/-- More depth than the index of a parser adds nothing to its start set. -/
theorem startSet_stable {fuel : Nat} {id : ParserId} (inner : p.draft.IsInner fuel id) :
    p.startSet nullable fuel id = p.startSet nullable (fuel + 1) id := by
  induction fuel generalizing id with
  | zero => exact absurd inner.1 (Nat.not_lt_zero _)
  | succ fuel ih =>
    cases here : p.operator? id with
    | none => simp only [startSet, here]
    | some operator =>
      obtain ⟨parser, found, rfl⟩ := exists_operator here
      have stands := ordered.stands found
      generalize parser.operator = operator at here stands
      cases stands with
      | slot slot _ => exact absurd slot inner.2
      | call _ slot =>
        obtain ⟨index, found⟩ := isSlot_iff.mp slot
        rw [startSet_call here found, startSet_call here found]
      | inner _ other parts =>
        rw [startSet_parts here other, startSet_parts here other]
        refine List.flatMap_congr fun part member => ih ?_
        obtain ⟨before, plain⟩ := parts part (operator.startHeads_subset nullable member)
        exact ⟨Nat.lt_of_lt_of_le before (Nat.le_of_lt_succ inner.1), plain⟩

/-- A parser starts with all that its heads start with. -/
theorem startSet_subset {id part : ParserId} {operator : Operator} (here : p.operator? id = some operator)
    (other : ∀ target, operator ≠ .call target) (inner : p.draft.IsInner id part)
    (member : part ∈ operator.startHeads nullable) :
    p.startSet nullable p.parsers.size part ⊆ p.startSet nullable p.parsers.size id := by
  obtain ⟨parser, found, -⟩ := exists_operator here
  obtain ⟨inside, -⟩ := Array.getElem?_eq_some_iff.mp found
  obtain ⟨fuel, size⟩ : ∃ fuel, p.parsers.size = fuel + 1 := ⟨p.parsers.size - 1, by omega⟩
  have below : p.draft.IsInner fuel part := by
    rw [size] at inside
    exact ⟨Nat.lt_of_lt_of_le inner.1 (Nat.le_of_lt_succ inside), inner.2⟩
  rw [size, startSet_parts here other, ← startSet_stable ordered below]
  exact fun index found => List.mem_flatMap.mpr ⟨part, member, found⟩

end Ordered

/-! ### Rankings -/

/-- A bound above the ranks of all slots that a parser starts with. -/
def startBound (p : Program) (rank : Nat → Nat) (id : ParserId) : Nat :=
  (p.startSet p.nullability p.parsers.size id).foldr (fun index bound => max (rank index + 1) bound) 0

/-- The place of a parser among all: slots by their ranks, each before the parsers that lead to it, and the
parsers of one rank in their order. -/
def key (p : Program) (rank : Nat → Nat) (id : ParserId) : Nat :=
  match p.slotIndex? id with
  | some index => rank index * (p.parsers.size + 1) + p.parsers.size
  | none => p.startBound rank id * (p.parsers.size + 1) + id

theorem startBound_le_iff {rank : Nat → Nat} {id : ParserId} {bound : Nat} :
    p.startBound rank id ≤ bound ↔ ∀ index ∈ p.startSet p.nullability p.parsers.size id, rank index < bound := by
  rw [startBound]
  induction p.startSet p.nullability p.parsers.size id with
  | nil => simp
  | cons index indices ih =>
    rw [List.foldr_cons, Nat.max_le, ih, List.forall_mem_cons]
    rfl

theorem key_slot {rank : Nat → Nat} {id : ParserId} {index : Nat} (found : p.slotIndex? id = some index) :
    p.key rank id = rank index * (p.parsers.size + 1) + p.parsers.size := by
  rw [key, found]

theorem key_inner {rank : Nat → Nat} {id : ParserId} (plain : ¬ p.draft.IsSlot id) :
    p.key rank id = p.startBound rank id * (p.parsers.size + 1) + id := by
  cases found : p.slotIndex? id with
  | some index => exact absurd (isSlot_iff.mpr ⟨index, found⟩) plain
  | none => rw [key, found]

/-- Places with a lower first part come before. -/
theorem place_lt {n low high place place' : Nat} (lower : low < high) (inside : place ≤ n) :
    low * (n + 1) + place < high * (n + 1) + place' := by
  have next : (low + 1) * (n + 1) ≤ high * (n + 1) := Nat.mul_le_mul_right _ lower
  rw [Nat.succ_mul] at next
  omega

theorem place_lt_of_le {n low high place place' : Nat} (le : low ≤ high) (before : place < place') :
    low * (n + 1) + place < high * (n + 1) + place' :=
  Nat.add_lt_add_of_le_of_lt (Nat.mul_le_mul_right _ le) before

/-- What start sets follow leads down. -/
theorem key_lt {rank : Nat → Nat} (ranked : SlotRank p rank) (ordered : p.InOrder) {id part : ParserId}
    (head : p.StartHead id part) : p.key rank part < p.key rank id := by
  obtain ⟨operator, here, member⟩ := head
  obtain ⟨parser, found, rfl⟩ := exists_operator here
  obtain ⟨inside, -⟩ := Array.getElem?_eq_some_iff.mp found
  have stands := ordered.stands found
  obtain ⟨label, operator⟩ := parser
  cases stands with
  | slot slot inner =>
    obtain rfl := List.mem_singleton.mp member
    obtain ⟨index, known⟩ := isSlot_iff.mp slot
    obtain ⟨name, listed⟩ := slotIndex?_eq_some known
    rw [key_slot known, key_inner inner.2]
    exact place_lt_of_le (startBound_le_iff.mpr fun _ => ranked.lower listed found) inner.1
  | call plain slot =>
    obtain rfl := List.mem_singleton.mp member
    obtain ⟨index, known⟩ := isSlot_iff.mp slot
    rw [key_slot known, key_inner plain]
    refine place_lt (startBound_le_iff.mp (Nat.le_refl _) index ?_) (Nat.le_refl _)
    obtain ⟨fuel, size⟩ : ∃ fuel, p.parsers.size = fuel + 1 := ⟨p.parsers.size - 1, by omega⟩
    rw [size, startSet_call here known]
    exact List.mem_singleton.mpr rfl
  | inner plain other parts =>
    obtain inner := parts part (Operator.startHeads_subset _ _ member)
    rw [key_inner plain, key_inner inner.2]
    refine place_lt_of_le (startBound_le_iff.mpr fun index starts => ?_) inner.1
    exact startBound_le_iff.mp (Nat.le_refl _) index (startSet_subset ordered here other inner member starts)

/-- A circle that start sets follow all the way does not pass validation. -/
theorem not_transGen_startHead (valid : p.cycleViolations = []) (ordered : p.InOrder) (id : ParserId) :
    ¬ TransGen p.StartHead id id := by
  obtain ⟨rank, ranked⟩ := exists_slotRank valid
  have lower : ∀ {id part}, TransGen p.StartHead id part → p.key rank part < p.key rank id := by
    intro id part reached
    induction reached with
    | single head => exact key_lt ranked ordered head
    | tail _ head ih => exact Nat.lt_trans (key_lt ranked ordered head) ih
  exact fun circle => Nat.lt_irrefl _ (lower circle)

/-- A way along heads is one that start sets follow, or it passes a parser that they leave out. -/
theorem transGen_head_cases {id part : ParserId} (way : TransGen p.Head id part) :
    TransGen p.StartHead id part ∨
      ∃ list separator, ReflTransGen p.Head id list ∧ p.HiddenHead list separator ∧
        ReflTransGen p.Head separator part := by
  induction way with
  | single head =>
    rcases head_iff.mp head with start | hidden
    · exact .inl (.single start)
    · exact .inr ⟨_, _, .refl, hidden, .refl⟩
  | tail way head ih =>
    rcases ih with starts | ⟨list, separator, before, hidden, after⟩
    · rcases head_iff.mp head with start | hidden
      · exact .inl (starts.tail start)
      · exact .inr ⟨_, _, way.to_reflTransGen, hidden, .refl⟩
    · exact .inr ⟨list, separator, before, hidden, after.tail head⟩

/-- In a validated program no parser leads back to itself before any input is taken, just if no separator
that the start sets leave out leads back to its list. -/
theorem acyclic_iff (valid : p.cycleViolations = []) (ordered : p.InOrder) :
    (∀ id, ¬ TransGen p.Head id id) ↔ p.NoHiddenCircle := by
  constructor
  · intro acyclic list separator hidden back
    exact acyclic list (TransGen.head' (head_iff.mpr (.inr hidden)) back)
  · intro guarded id circle
    rcases transGen_head_cases circle with starts | ⟨list, separator, before, hidden, after⟩
    · exact not_transGen_startHead valid ordered id starts
    · exact guarded hidden (after.trans before)

/-- Whether each parser may run only parsers of lower height before any input is taken. -/
def descends (p : Program) (heights : List Nat) : Bool :=
  (List.range p.parsers.size).all fun id => (p.operator? id).all fun operator =>
    (operator.heads p.nullability).all fun part => heights.getD part 0 < heights.getD id 0

/-- Heights that go down along heads show that a program has no circles. -/
theorem noHiddenCircle_of_descends {heights : List Nat} (h : p.descends heights = true) : p.NoHiddenCircle := by
  have lower : ∀ {id part}, p.Head id part → heights.getD part 0 < heights.getD id 0 := by
    intro id part ⟨operator, here, member⟩
    obtain ⟨parser, found, -⟩ := exists_operator here
    obtain ⟨inside, -⟩ := Array.getElem?_eq_some_iff.mp found
    have heads := List.all_eq_true.mp h id (List.mem_range.mpr inside)
    rw [here, Option.all_some, List.all_eq_true] at heads
    exact of_decide_eq_true (heads part member)
  have below : ∀ {id part}, ReflTransGen p.Head id part → heights.getD part 0 ≤ heights.getD id 0 := by
    intro id part reached
    induction reached with
    | refl => exact Nat.le_refl _
    | tail _ head ih => exact Nat.le_trans (Nat.le_of_lt (lower head)) ih
  intro list separator hidden back
  exact Nat.not_lt.mpr (below back) (lower (head_iff.mpr (.inr hidden)))

/-- The parsers that each parser may run before any input is taken. -/
def headEdges (p : Program) : List (List Nat) :=
  p.parsers.toList.map fun parser => parser.operator.heads p.nullability

theorem edge_headEdges {id part : ParserId} : Edge p.headEdges id part ↔ p.Head id part := by
  rw [Edge, headEdges, List.getElem?_map, Array.getElem?_toList, Head, operator?]
  cases p.parsers[id]? with
  | none => simp
  | some parser => simp

/-- A height for every parser, below the number of parsers: what it may run before any input is taken is
lower. -/
structure Height (p : Program) (height : ParserId → Nat) : Prop where
  bound : ∀ {id}, id < p.parsers.size → height id < p.parsers.size
  lower : ∀ {id part}, p.Head id part → height part < height id

/-- The parsers of a program without circles have heights. -/
theorem exists_height (ordered : p.InOrder) (acyclic : ∀ id, ¬ TransGen p.Head id id) :
    ∃ height, p.Height height := by
  have inside : ∀ {id part}, p.Head id part → part < p.parsers.size := by
    intro id part ⟨operator, here, member⟩
    obtain ⟨parser, found, rfl⟩ := exists_operator here
    exact ordered.part_lt found (Operator.heads_subset _ _ member)
  have same : Edge p.headEdges = p.Head := by
    funext id part
    exact propext edge_headEdges
  have length : p.headEdges.length = p.parsers.size := List.length_map _
  obtain ⟨height, bound, lower⟩ := exists_rank (same ▸ acyclic)
    fun edge => length ▸ inside (edge_headEdges.mp edge)
  rw [length] at bound
  exact ⟨height, fun inside => bound _ inside, fun head => lower (edge_headEdges.mpr head)⟩

end Program
end GrammarKit
