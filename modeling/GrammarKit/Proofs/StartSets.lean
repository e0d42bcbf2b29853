/-
Module: GrammarKit.Proofs.StartSets
Purpose: What the start sets of a validated program say.  No circle leads from a slot to itself along them,
  so the slots can be ranked: every rule that a slot may call before it has taken input has a lower rank.
Main exports: Program.mem_startSet_lt, Program.exists_slotRank
-/
import GrammarKit.Proofs.CycleSearch

namespace GrammarKit.Program

variable {p : Program} {nullable : Array Bool}

theorem slotIndex?_eq_some {slot : ParserId} {index : Nat} (h : p.slotIndex? slot = some index) :
    ∃ name, p.slots[index]? = some (slot, name) := by
  obtain ⟨bound, found, -⟩ := List.findIdx?_eq_some_iff_getElem.mp h
  refine ⟨p.slots[index].2, ?_⟩
  rw [List.getElem?_eq_getElem bound]
  exact congrArg some (Prod.ext (by simpa using found) rfl)

/-- Every slot of a program has a number. -/
theorem exists_slotIndex {slot : ParserId} {name : String} (h : (slot, name) ∈ p.slots) :
    ∃ index, p.slotIndex? slot = some index := by
  rw [← Option.isSome_iff_exists, slotIndex?, List.findIdx?_isSome, List.any_eq_true]
  exact ⟨_, h, by simp⟩

/-- Start sets are sets of numbers of slots. -/
theorem mem_startSet_lt {fuel : Nat} {id : ParserId} {index : Nat}
    (h : index ∈ p.startSet nullable fuel id) : index < p.slots.length := by
  induction fuel generalizing id with
  | zero => cases h
  | succ fuel ih =>
    simp only [startSet] at h
    split at h
    · split at h
      · next found =>
        obtain rfl := List.mem_singleton.mp h
        obtain ⟨name, here⟩ := slotIndex?_eq_some found
        exact (List.getElem?_eq_some_iff.mp here).1
      · exact ih h
    · exact ih h
    · obtain ⟨id, -, h⟩ := List.mem_flatMap.mp h
      exact ih h
    · obtain ⟨id, -, h⟩ := List.mem_flatMap.mp h
      exact ih h
    · exact ih h
    · obtain ⟨id, -, h⟩ := List.mem_flatMap.mp h
      exact ih h
    · exact ih h
    · cases h

theorem mem_insertNumber {n m : Nat} {ns : List Nat} :
    m ∈ insertNumber n ns ↔ m = n ∨ m ∈ ns := by
  induction ns with
  | nil => simp [insertNumber]
  | cons k ns ih =>
    simp only [insertNumber]
    split
    · simp
    · split
      · next same => simp [same]
      · simp only [List.mem_cons, ih]
        tauto

theorem mem_foldr_insertNumber {m : Nat} {ns : List Nat} : m ∈ ns.foldr insertNumber [] ↔ m ∈ ns := by
  induction ns with
  | nil => simp
  | cons n ns ih => rw [List.foldr_cons, mem_insertNumber, ih, List.mem_cons]

/-- The edges from the number of a slot are the start set of its body. -/
theorem edge_startEdges {i j : Nat} {slot : ParserId} {name : String}
    (here : p.slots[i]? = some (slot, name)) :
    Edge p.startEdges i j ↔ j ∈ p.slotEdges p.nullability slot := by
  simp only [Edge, startEdges, List.getElem?_map, here, Option.map_some, Option.getD_some,
    mem_foldr_insertNumber]

theorem lt_of_edge_startEdges {i j : Nat} (h : Edge p.startEdges i j) : j < p.slots.length := by
  have inside : i < p.slots.length := by
    have := h.lt
    rwa [startEdges, List.length_map] at this
  have here : p.slots[i]? = some (p.slots[i].1, p.slots[i].2) := List.getElem?_eq_getElem inside
  have member := (edge_startEdges here).mp h
  simp only [slotEdges] at member
  split at member
  · exact mem_startSet_lt member
  · cases member

/-- A ranking of slots by their numbers, below the number of slots: what the body of a slot may call before
it has taken input ranks lower than the slot. -/
structure SlotRank (p : Program) (rank : Nat → Nat) : Prop where
  bound : ∀ {index}, index < p.slots.length → rank index < p.slots.length
  lower : ∀ {index next slot name label body}, p.slots[index]? = some (slot, name) →
    p.parsers[slot]? = some ⟨label, .call body⟩ →
    next ∈ p.startSet p.nullability p.parsers.size body → rank next < rank index

/-- The slots of a program without circles can be ranked. -/
theorem exists_slotRank (h : p.cycleViolations = []) : ∃ rank, SlotRank p rank := by
  have none : findCycles p.startEdges = [] := List.map_eq_nil_iff.mp h
  have length : p.startEdges.length = p.slots.length := List.length_map _
  obtain ⟨rank, bound, lower⟩ := exists_rank (not_transGen_of_findCycles none)
    fun edge => length ▸ lt_of_edge_startEdges edge
  rw [length] at bound
  refine ⟨rank, fun inside => bound _ inside, fun here body member => lower ?_⟩
  rw [edge_startEdges here, slotEdges, operator?, body]
  exact member

end GrammarKit.Program
