/-
Module: GrammarKit.Proofs.ListSlots
Purpose: The slots of delimited lists.  Folding slots into a tree and taking them out again gives the slots
  back, and neither the leaves nor their order depend on how a list groups.
Main exports: slotPattern, Tree.slots?_ofSlots, Tree.leaves_ofSlots, Tree.depth_lt_of_mem_slots, Tree.ofSlots_lossless
-/
import Mathlib.Tactic.Common
import GrammarKit.Unparse

namespace GrammarKit

/-! ### Patterns of slots -/

/-- Elements and separators in turn, where `left` elements follow the first one and either end may be
elided. -/
def slotPattern {α : Type} (element separator elided : α) (leading trailing : Bool) :
    Nat → Bool → List α
  | 0, first => [if (first && leading) || trailing then elided else element]
  | left + 1, first =>
      (if first && leading then elided else element) :: separator
        :: slotPattern element separator elided leading trailing left false

section SlotPattern

variable {α : Type} {element separator elided : α} {leading trailing : Bool}

theorem length_slotPattern (left : Nat) (first : Bool) :
    (slotPattern element separator elided leading trailing left first).length = 2 * left + 1 := by
  induction left generalizing first with
  | zero => rfl
  | succ left ih =>
    simp only [slotPattern, List.length_cons, ih]
    omega

/-- Away from the first element, a pattern does not depend on whether the first one is elided. -/
theorem slotPattern_inside (leading' : Bool) (left : Nat) :
    slotPattern element separator elided leading trailing left false
      = slotPattern element separator elided leading' trailing left false := by
  induction left with
  | zero => simp [slotPattern]
  | succ left ih => simp [slotPattern, ih]

/-- A pattern with room for its elided ends has an element. -/
theorem mem_slotPattern {left : Nat} (enough : leading.toNat + trailing.toNat ≤ left) :
    element ∈ slotPattern element separator elided leading trailing left true := by
  match left with
  | 0 =>
    cases leading <;> cases trailing <;> simp_all [slotPattern]
  | 1 =>
    cases leading <;> cases trailing <;> simp_all [slotPattern]
  | left + 2 => simp [slotPattern]

/-- A pattern whose last element is not also its first one begins with an element. -/
theorem slotPattern_eq_cons {left : Nat} (ends : trailing = true → 0 < left) :
    slotPattern element separator elided leading trailing left false
      = element :: (slotPattern element separator elided leading trailing left false).tail := by
  cases left with
  | zero =>
    cases trailing with
    | false => rfl
    | true => exact absurd (ends rfl) (Nat.lt_irrefl 0)
  | succ left => rfl

/-- The pattern of a list in two parts: up to the first element that is not elided, and the pairs after
it. -/
theorem slotPattern_append {pairs : Nat} (ends : trailing = true → 0 < pairs) :
    slotPattern element separator elided leading trailing (leading.toNat + pairs) true
      = slotPattern element separator elided leading false leading.toNat true
        ++ (slotPattern element separator elided false trailing pairs false).tail := by
  cases leading with
  | false =>
    have same : slotPattern element separator elided false trailing pairs true
        = slotPattern element separator elided false trailing pairs false := by
      cases pairs <;> rfl
    rw [Bool.toNat_false, Nat.zero_add, same, slotPattern_eq_cons ends]
    rfl
  | true =>
    rw [Bool.toNat_true, Nat.add_comm, slotPattern, slotPattern_inside false, slotPattern_eq_cons ends]
    rfl

end SlotPattern

namespace Tree

/-! ### Slots of a node -/

theorem slots?_of_single {tag : String} {assoc : Assoc} {terms : Nat} (h : assoc = .flat ∨ terms < 3)
    (children : List Tree) :
    slots? (node tag (some (.list ⟨assoc, terms⟩)) children) = some children := by
  rw [slots?.eq_def]
  simp only [h, if_true]

theorem slots?_of_left {tag : String} {terms : Nat} {group separator last : Tree} (many : 3 ≤ terms)
    (inner : isInnerGroup tag ⟨.leftToRight, terms⟩ group = true) :
    slots? (node tag (some (.list ⟨.leftToRight, terms⟩)) [group, separator, last])
      = (slots? group).map (· ++ [separator, last]) := by
  rw [slots?.eq_def]
  simp [inner, Nat.not_lt.mpr many]

theorem slots?_of_right {tag : String} {terms : Nat} {first separator group : Tree} (many : 3 ≤ terms)
    (inner : isInnerGroup tag ⟨.rightToLeft, terms⟩ group = true) :
    slots? (node tag (some (.list ⟨.rightToLeft, terms⟩)) [first, separator, group])
      = (slots? group).map fun slots => first :: separator :: slots := by
  rw [slots?.eq_def]
  simp [inner, Nat.not_lt.mpr many]

/-- The slots of a tree are its children, or else those of an inner group beside the other two. -/
theorem slots?_cases {tree : Tree} {slots : List Tree} (h : slots? tree = some slots) :
    ∃ tag extra children, tree = node tag extra children ∧
      (slots = children ∨
        (∃ group separator last others, children = [group, separator, last] ∧
          slots? group = some others ∧ slots = others ++ [separator, last]) ∨
        (∃ first separator group others, children = [first, separator, group] ∧
          slots? group = some others ∧ slots = first :: separator :: others)) := by
  rw [slots?.eq_def] at h
  split at h
  · next tag shape children =>
    refine ⟨tag, some (.list shape), children, rfl, ?_⟩
    split at h
    · exact .inl (Option.some.inj h).symm
    · split at h
      · next first separator last =>
        split at h
        · split at h
          · obtain ⟨others, found, rfl⟩ := Option.map_eq_some_iff.mp h
            exact .inr (.inl ⟨first, separator, last, others, rfl, found, rfl⟩)
          · cases h
        · split at h
          · obtain ⟨others, found, rfl⟩ := Option.map_eq_some_iff.mp h
            exact .inr (.inr ⟨first, separator, last, others, rfl, found, rfl⟩)
          · cases h
      · cases h
  · cases h

/-! ### Folding and taking apart -/

theorem slots?_foldLeft {tag : String} {rest : List Tree} {pairs : Nat} (even : rest.length = 2 * pairs)
    {group : Tree} {terms : Nat} {slots : List Tree} (many : 3 ≤ terms) (known : slots? group = some slots)
    (inner : isInnerGroup tag ⟨.leftToRight, terms⟩ group = true) :
    slots? (foldLeft tag group terms rest) = some (slots ++ rest) := by
  induction pairs generalizing rest group terms slots with
  | zero =>
    obtain rfl := List.eq_nil_of_length_eq_zero even
    simpa [foldLeft] using known
  | succ pairs ih =>
    match rest, even with
    | separator :: element :: rest, even =>
      have larger : isInnerGroup tag ⟨.leftToRight, terms + 1⟩
          (node tag (some (.list ⟨.leftToRight, terms⟩)) [group, separator, element]) = true := by
        simp [isInnerGroup]
      have opened : slots? (node tag (some (.list ⟨.leftToRight, terms⟩)) [group, separator, element])
          = some (slots ++ [separator, element]) := by
        rw [slots?_of_left many inner, known, Option.map_some]
      rw [foldLeft, ih (by simpa [Nat.mul_succ] using even) (by omega) opened larger]
      simp

theorem slots?_foldRight {tag : String} {rest : List Tree} {pairs : Nat} (even : rest.length = 2 * pairs)
    {group : Tree} {terms : Nat} {slots : List Tree} (many : 3 ≤ terms) (known : slots? group = some slots)
    (inner : isInnerGroup tag ⟨.rightToLeft, terms⟩ group = true) :
    slots? (foldRight tag group terms rest) = some (rest.reverse ++ slots) := by
  induction pairs generalizing rest group terms slots with
  | zero =>
    obtain rfl := List.eq_nil_of_length_eq_zero even
    simpa [foldRight] using known
  | succ pairs ih =>
    match rest, even with
    | separator :: element :: rest, even =>
      have larger : isInnerGroup tag ⟨.rightToLeft, terms + 1⟩
          (node tag (some (.list ⟨.rightToLeft, terms⟩)) [element, separator, group]) = true := by
        simp [isInnerGroup]
      have opened : slots? (node tag (some (.list ⟨.rightToLeft, terms⟩)) [element, separator, group])
          = some (element :: separator :: slots) := by
        rw [slots?_of_right many inner, known, Option.map_some]
      rw [foldRight, ih (by simpa [Nat.mul_succ] using even) (by omega) opened larger]
      simp

/-- The slots of a list, of which there is an odd number, can be taken out of its tree again. -/
theorem slots?_ofSlots (tag : String) (assoc : Assoc) {slots : List Tree} {left : Nat}
    (odd : slots.length = 2 * left + 1) : slots? (ofSlots tag assoc slots) = some slots := by
  have terms : (slots.length + 1) / 2 = left + 1 := by omega
  simp only [ofSlots, terms]
  split
  · exact slots?_of_single (.inr (by omega)) slots
  · match left, slots, odd with
    | left + 1, first :: second :: third :: rest, odd =>
      cases assoc with
      | flat => exact slots?_of_single (.inl rfl) _
      | leftToRight =>
        simp only [List.headD_cons, List.tail_cons, foldLeft]
        have even : rest.length = 2 * left := by
          simp only [List.length_cons] at odd
          omega
        have group : slots? (node tag (some (.list ⟨.leftToRight, 2⟩)) [first, second, third])
            = some [first, second, third] := slots?_of_single (.inr (by omega)) _
        exact slots?_foldLeft even (Nat.le_refl 3) group (by simp [isInnerGroup])
      | rightToLeft =>
        -- the fold starts at the last slot, so the last three are brought to the front
        obtain ⟨start, last, separator, element, whole⟩ : ∃ start last separator element,
            first :: second :: third :: rest = start ++ [element, separator, last] := by
          generalize first :: second :: third :: rest = slots at odd
          have backward : slots.reverse.length = 2 * (left + 1) + 1 := by simpa using odd
          match h : slots.reverse, backward with
          | last :: separator :: element :: start, _ =>
            exact ⟨start.reverse, last, separator, element, by simpa using congrArg List.reverse h⟩
        rw [whole] at odd ⊢
        have ending : (start ++ [element, separator, last]).getLastD elided = last := by
          simp [List.getLastD_eq_getLast?]
        have backward : (start ++ [element, separator, last]).reverse.tail
            = separator :: element :: start.reverse := by simp
        simp only [ending, backward, foldRight]
        have even : start.reverse.length = 2 * left := by
          simp only [List.length_append, List.length_cons, List.length_nil] at odd
          rw [List.length_reverse]
          omega
        have group : slots? (node tag (some (.list ⟨.rightToLeft, 2⟩)) [element, separator, last])
            = some [element, separator, last] := slots?_of_single (.inr (by omega)) _
        rw [slots?_foldRight even (Nat.le_refl 3) group (by simp [isInnerGroup]), List.reverse_reverse]

/-- Each pair that is folded to a group from the left makes a node around it, which counts one element more. -/
theorem foldLeft_eq_node (tag : String) {rest : List Tree} {pairs : Nat} (even : rest.length = 2 * (pairs + 1))
    (group : Tree) (terms : Nat) :
    ∃ children, foldLeft tag group terms rest = node tag (some (.list ⟨.leftToRight, terms + pairs⟩)) children := by
  induction pairs generalizing rest group terms with
  | zero =>
    match rest, even with
    | [_, _], _ => exact ⟨_, rfl⟩
  | succ pairs ih =>
    match rest, even with
    | separator :: element :: rest, even =>
      have fewer : rest.length = 2 * (pairs + 1) := by simpa [Nat.mul_succ] using even
      rw [foldLeft, ← Nat.add_assoc, Nat.add_right_comm]
      exact ih fewer _ _

/-- The same from the right. -/
theorem foldRight_eq_node (tag : String) {rest : List Tree} {pairs : Nat} (even : rest.length = 2 * (pairs + 1))
    (group : Tree) (terms : Nat) :
    ∃ children, foldRight tag group terms rest = node tag (some (.list ⟨.rightToLeft, terms + pairs⟩)) children := by
  induction pairs generalizing rest group terms with
  | zero =>
    match rest, even with
    | [_, _], _ => exact ⟨_, rfl⟩
  | succ pairs ih =>
    match rest, even with
    | separator :: element :: rest, even =>
      have fewer : rest.length = 2 * (pairs + 1) := by simpa [Nat.mul_succ] using even
      rw [foldRight, ← Nat.add_assoc, Nat.add_right_comm]
      exact ih fewer _ _

/-- The tree of a list is a node that records how the list groups and how many elements it has. -/
theorem ofSlots_eq_node (tag : String) (assoc : Assoc) {slots : List Tree} {left : Nat}
    (odd : slots.length = 2 * left + 1) :
    ∃ children, ofSlots tag assoc slots = node tag (some (.list ⟨assoc, left + 1⟩)) children := by
  have terms : (slots.length + 1) / 2 = left + 1 := by omega
  simp only [ofSlots, terms]
  split
  · exact ⟨slots, rfl⟩
  · next several =>
    obtain ⟨pairs, rfl⟩ : ∃ pairs, left = pairs + 1 := Nat.exists_eq_succ_of_ne_zero (by omega)
    have count : pairs + 1 + 1 = 2 + pairs := by omega
    rw [count]
    cases assoc with
    | flat => exact ⟨slots, rfl⟩
    | leftToRight =>
      have even : slots.tail.length = 2 * (pairs + 1) := by rw [List.length_tail, odd, Nat.add_sub_cancel]
      exact foldLeft_eq_node tag even _ _
    | rightToLeft =>
      have even : slots.reverse.tail.length = 2 * (pairs + 1) := by
        rw [List.length_tail, List.length_reverse, odd, Nat.add_sub_cancel]
      exact foldRight_eq_node tag even _ _

/-- A list is never mistaken for an elided element. -/
theorem ofSlots_ne_elided (tag : String) (assoc : Assoc) {slots : List Tree} {left : Nat}
    (odd : slots.length = 2 * left + 1) : ofSlots tag assoc slots ≠ elided := by
  obtain ⟨children, same⟩ := ofSlots_eq_node tag assoc odd
  rw [same]
  exact Tree.noConfusion

/-! ### Walking over slots -/

/-- The node of a list gives its slots to a walk. -/
theorem listSlots_ofSlots (t : Term) (tag : String) (assoc : Assoc) {slots : List Tree} {left : Nat}
    (odd : slots.length = 2 * left + 1) : Term.listSlots t (ofSlots tag assoc slots) = .ok slots := by
  have taken := slots?_ofSlots tag assoc odd
  obtain ⟨children, same⟩ := ofSlots_eq_node tag assoc odd
  rw [same] at taken ⊢
  simp only [Term.listSlots, taken]
  rfl

section WalkSlots

variable {α : Type} (element separator : Tree → α → Except Error α) (slots : List Tree) (a : α)

theorem walkSlots_elided :
    Term.walkSlots element separator (elided :: slots) a = Term.walkSlots separator element slots a :=
  rfl

theorem walkSlots_present {slot : Tree} (present : slot ≠ elided) :
    Term.walkSlots element separator (slot :: slots) a
      = element slot a >>= Term.walkSlots separator element slots := by
  cases slot with
  | elided => exact absurd rfl present
  | _ => rfl

theorem walkSlots_cons (slot : Tree) :
    Term.walkSlots element separator (slot :: slots) a
      = Term.walkSlots element separator [slot] a >>= Term.walkSlots separator element slots := by
  by_cases skipped : slot = elided
  · rw [skipped, walkSlots_elided]
    rfl
  · rw [walkSlots_present _ _ _ _ skipped, walkSlots_present _ _ _ _ skipped, bind_assoc]
    rfl

end WalkSlots

/-! ### Leaves and depth -/

theorem leavesAll_append (ts us : List Tree) :
    leavesAll (ts ++ us) = leavesAll ts ++ leavesAll us := by
  simp [leavesAll_eq_flatMap]

theorem leavesAll_slots {tree : Tree} {slots : List Tree} (h : slots? tree = some slots) :
    leavesAll slots = leaves tree := by
  obtain ⟨tag, extra, children, rfl, rfl | ⟨group, separator, last, others, rfl, found, rfl⟩ |
    ⟨first, separator, group, others, rfl, found, rfl⟩⟩ := slots?_cases h
  · rw [leaves]
  · simp [leavesAll_append, leaves, leavesAll, leavesAll_slots found]
  · simp [leaves, leavesAll, leavesAll_slots found]
termination_by sizeOf tree

/-- The leaves of a list are those of its slots in order, however it groups. -/
theorem leaves_ofSlots (tag : String) (assoc : Assoc) {slots : List Tree} {left : Nat}
    (odd : slots.length = 2 * left + 1) : leaves (ofSlots tag assoc slots) = leavesAll slots :=
  (leavesAll_slots (slots?_ofSlots tag assoc odd)).symm

/-- **Folding a list loses nothing.**  Whatever stands in the slots of a list, elided slots and lists of the same tag
and grouping among them, its tree is a node that records the grouping and the number of elements; exactly the slots can
be taken out of it again, in order, and its leaves are those of the slots. -/
theorem ofSlots_lossless (tag : String) (assoc : Assoc) {slots : List Tree} {left : Nat}
    (odd : slots.length = 2 * left + 1) :
    (∃ children, ofSlots tag assoc slots = node tag (some (.list ⟨assoc, left + 1⟩)) children) ∧
      (ofSlots tag assoc slots).slots? = some slots ∧
      (ofSlots tag assoc slots).leaves = slots.flatMap leaves := by
  refine ⟨ofSlots_eq_node tag assoc odd, slots?_ofSlots tag assoc odd, ?_⟩
  rw [leaves_ofSlots tag assoc odd, leavesAll_eq_flatMap]

/-- A difference of two numbers, as it stands in a list of the same kind. -/
def difference : Tree :=
  node "sum" (some (.list ⟨.leftToRight, 2⟩)) [leaf (.ofText "5"), leaf (.ofText "-"), leaf (.ofText "3")]

/-- A difference as the first operand of a list of the same kind is no part of the list, although it has the shape that
the group of the first two elements has. -/
theorem ofSlots_lossless_operand :
    let slots := [difference, leaf (.ofText "-"), elided, leaf (.ofText "-"), difference]
    slots.length = 2 * 2 + 1 ∧ (ofSlots "sum" .leftToRight slots).slots? = some slots ∧
      (ofSlots "sum" .leftToRight slots).leaves
        = ["5", "-", "3", "-", "-", "5", "-", "3"].map Slice.ofText := by
  have odd : [difference, leaf (.ofText "-"), elided, leaf (.ofText "-"), difference].length = 2 * 2 + 1 := rfl
  obtain ⟨-, taken, leaves⟩ := ofSlots_lossless "sum" .leftToRight odd
  exact ⟨odd, taken, leaves⟩

theorem depth_le_depthAll {tree : Tree} {trees : List Tree} (h : tree ∈ trees) :
    depth tree ≤ depthAll trees := by
  induction trees with
  | nil => cases h
  | cons t trees ih =>
    rw [depthAll]
    rcases List.mem_cons.mp h with rfl | h
    · exact Nat.le_max_left _ _
    · exact Nat.le_trans (ih h) (Nat.le_max_right _ _)

theorem depth_lt_of_mem {tag : String} {extra : Option Extra} {tree : Tree} {children : List Tree}
    (h : tree ∈ children) : depth tree < depth (node tag extra children) :=
  Nat.lt_succ_of_le (depth_le_depthAll h)

theorem depth_lt_of_mem_slots {tree slot : Tree} {slots : List Tree} (h : slots? tree = some slots)
    (member : slot ∈ slots) : depth slot < depth tree := by
  obtain ⟨tag, extra, children, rfl, rfl | ⟨group, separator, last, others, rfl, found, rfl⟩ |
    ⟨first, separator, group, others, rfl, found, rfl⟩⟩ := slots?_cases h
  · exact depth_lt_of_mem member
  · rcases List.mem_append.mp member with inside | beside
    · exact Nat.lt_trans (depth_lt_of_mem_slots found inside) (depth_lt_of_mem (by simp))
    · exact depth_lt_of_mem (List.mem_cons_of_mem _ beside)
  · simp only [List.mem_cons] at member
    rcases member with rfl | rfl | inside
    · exact depth_lt_of_mem (by simp)
    · exact depth_lt_of_mem (by simp)
    · exact Nat.lt_trans (depth_lt_of_mem_slots found inside) (depth_lt_of_mem (by simp))
termination_by sizeOf tree

end Tree
end GrammarKit
