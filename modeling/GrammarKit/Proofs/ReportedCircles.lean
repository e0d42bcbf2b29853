/-
Module: GrammarKit.Proofs.ReportedCircles
Purpose: The circles that validation reports.  The search for circles reports nothing exactly if there are none, and
  whatever it reports is one: it leads from its least number along edges back to that number and passes no other number
  twice.  For a compiled program the numbers are those of the slots, and the edges say which slots the body of a slot
  may call before it has taken input, as far as start sets follow what is run.
Main exports: SimpleCircle, Trail, findCycles_eq_nil_iff, Program.Starts, Program.LeadsTo, Program.edge_iff_leadsTo,
  Program.cycleViolations_report
-/
import Mathlib.Data.List.Chain
import GrammarKit.Proofs.Heads

namespace GrammarKit

open Relation (TransGen)

/-! ### Circles and the ways of a search -/

/-- A way along a relation from a number through others back to it: the others are greater, and none of them comes
twice. -/
structure SimpleCircle (R : Nat → Nat → Prop) (root : Nat) (others : List Nat) : Prop where
  chain : List.IsChain R (root :: (others ++ [root]))
  nodup : others.Nodup
  above : ∀ i ∈ others, root < i

/-- A number on a circle leads back to itself. -/
theorem SimpleCircle.transGen {R : Nat → Nat → Prop} {root : Nat} {others : List Nat}
    (circle : SimpleCircle R root others) : TransGen R root root := by
  have chain := circle.chain
  cases others with
  | nil =>
    rw [List.nil_append, List.isChain_pair] at chain
    exact .single chain
  | cons next others =>
    obtain ⟨first, rest⟩ := List.isChain_cons_cons.mp chain
    apply TransGen.head' first
    apply List.relationReflTransGen_of_exists_isChain_cons (others ++ [root]) rest
    exact List.getLast_append_singleton (next :: others)

/-- The way of a search from its root to where it is: along a relation to numbers above the root, all of them
different. -/
structure Trail (R : Nat → Nat → Prop) (root here : Nat) (others : List Nat) : Prop where
  chain : List.IsChain R (root :: others)
  ends : (root :: others).getLast? = some here
  nodup : others.Nodup
  above : ∀ i ∈ others, root < i

namespace Trail

variable {R : Nat → Nat → Prop} {root here next : Nat} {others : List Nat}

theorem start (R : Nat → Nat → Prop) (root : Nat) : Trail R root root [] where
  chain := .singleton root
  ends := rfl
  nodup := .nil
  above := nofun

/-- A way goes on to whatever its end leads to. -/
theorem chain_append (trail : Trail R root here others) (edge : R here next) :
    List.IsChain R (root :: (others ++ [next])) := by
  rw [← List.cons_append, List.isChain_append, trail.ends]
  refine ⟨trail.chain, .singleton next, fun last isLast first isFirst => ?_⟩
  obtain rfl := Option.some.inj isLast
  obtain rfl := Option.some.inj isFirst
  exact edge

/-- A step to a new number above the root. -/
theorem step (trail : Trail R root here others) (edge : R here next) (above : root < next) (new : next ∉ others) :
    Trail R root next (others ++ [next]) where
  chain := trail.chain_append edge
  ends := by rw [← List.cons_append, List.getLast?_append, List.getLast?_singleton, Option.some_or]
  nodup := List.nodup_append.mpr ⟨trail.nodup, List.nodup_singleton next, fun i member j same => by
    rintro rfl
    exact new (List.mem_singleton.mp same ▸ member)⟩
  above := fun i member => by
    rcases List.mem_append.mp member with earlier | last
    · exact trail.above i earlier
    · exact List.mem_singleton.mp last ▸ above

/-- A step back to the root closes a circle. -/
theorem circle (trail : Trail R root here others) (edge : R here root) : SimpleCircle R root others where
  chain := trail.chain_append edge
  nodup := trail.nodup
  above := trail.above

end Trail

/-! ### What a search finds -/

/-- All circles that a search has found are circles through its root. -/
def CycleSearch.Sound (edges : List (List Nat)) (root : Nat) (search : CycleSearch) : Prop :=
  ∀ cycle ∈ search.cycles, ∃ others, cycle = root :: (others ++ [root]) ∧ SimpleCircle (Edge edges) root others

section Sound

variable {edges : List (List Nat)} {root here : Nat} {path others : List Nat} {search : CycleSearch}

theorem sound_searchCycles (fuel : Nat) (way : path.reverse = root :: others)
    (trail : Trail (Edge edges) root here others) (visited : others ⊆ search.visited)
    (sound : search.Sound edges root) :
    (searchCycles edges root fuel path here search).Sound edges root := by
  induction fuel generalizing path others here search with
  | zero => exact sound
  | succ fuel ih =>
    -- each edge from here either closes the way, or carries it on to a number that is not on it, or is passed over
    have follows : ∀ {search next}, Edge edges here next → others ⊆ search.visited → search.Sound edges root →
        (follow edges root fuel path search next).Sound edges root := by
      intro search next edge visited sound
      unfold follow
      split
      · next back =>
        subst back
        intro cycle found
        rcases List.mem_append.mp found with earlier | last
        · exact sound cycle earlier
        · refine ⟨others, ?_, trail.circle edge⟩
          rw [List.mem_singleton.mp last, List.reverse_cons, way, List.cons_append]
      · split
        · next fresh =>
          have new : next ∉ others := fun member => by simpa [visited member] using fresh.2
          have longer : (next :: path).reverse = root :: (others ++ [next]) := by
            rw [List.reverse_cons, way, List.cons_append]
          refine ih longer (trail.step edge fresh.1 new) ?_ sound
          refine List.append_subset.mpr ⟨List.subset_cons_of_subset next visited, ?_⟩
          exact List.cons_subset.mpr ⟨List.mem_cons_self, List.nil_subset _⟩
        · exact sound
    rw [searchCycles_succ]
    have edges_here : ∀ next ∈ edges[here]?.getD [], Edge edges here next := fun _ member => member
    generalize edges[here]?.getD [] = nexts at edges_here
    induction nexts generalizing search with
    | nil => exact sound
    | cons next nexts rest =>
      obtain ⟨first, later⟩ := List.forall_mem_cons.mp edges_here
      have grows := (extends_follow edges root fuel path search next).visited.subset
      exact rest (List.Subset.trans visited grows) (follows first visited sound) later

/-- Whatever is found is a circle from its least number. -/
theorem circle_of_mem_findCycles {cycle : List Nat} (found : cycle ∈ findCycles edges) :
    ∃ root others, cycle = root :: (others ++ [root]) ∧ SimpleCircle (Edge edges) root others := by
  obtain ⟨root, -, found⟩ := mem_findCycles.mp found
  have sound : (searchFrom edges root).Sound edges root :=
    sound_searchCycles edges.length rfl (.start _ root) (List.nil_subset _) nofun
  exact ⟨root, sound cycle found⟩

/-- Nothing is found exactly if no number leads back to itself. -/
theorem findCycles_eq_nil_iff : findCycles edges = [] ↔ ∀ i, ¬ TransGen (Edge edges) i i := by
  constructor
  · exact not_transGen_of_findCycles
  · intro acyclic
    rw [List.eq_nil_iff_forall_not_mem]
    intro cycle found
    obtain ⟨root, others, -, circle⟩ := circle_of_mem_findCycles found
    exact acyclic root circle.transGen

end Sound

namespace Program

variable {p : Program}

/-! ### Start sets -/

/-- A parser may call a slot, given by its number, before any input is taken, as far as start sets follow what the
parser may run. -/
inductive Starts (p : Program) : ParserId → Nat → Prop
  | slot {id target : ParserId} {index : Nat} :
      p.operator? id = some (.call target) → p.slotIndex? target = some index → Starts p id index
  | part {id part : ParserId} {index : Nat} :
      p.StartHead id part → p.slotIndex? part = none → Starts p part index → Starts p id index

/-- A slot leads to another one, both given by their numbers: its body may call the other one before any input is
taken. -/
def LeadsTo (p : Program) (i j : Nat) : Prop :=
  ∃ slot name body, p.slots[i]? = some (slot, name) ∧ p.operator? slot = some (.call body) ∧ p.Starts body j

theorem slotIndex?_eq_none {id : ParserId} (plain : ¬ p.draft.IsSlot id) : p.slotIndex? id = none := by
  cases found : p.slotIndex? id with
  | none => rfl
  | some index => exact absurd (isSlot_iff.mpr ⟨index, found⟩) plain

section Ordered

variable (ordered : p.InOrder)
include ordered

/-- Start sets are made of calls that can be reached. -/
theorem starts_of_mem_startSet {fuel : Nat} {id : ParserId} {index : Nat} (inner : p.draft.IsInner p.parsers.size id)
    (member : index ∈ p.startSet p.nullability fuel id) : p.Starts id index := by
  induction fuel generalizing id with
  | zero => cases member
  | succ fuel ih =>
    cases here : p.operator? id with
    | none =>
      simp only [startSet, here] at member
      cases member
    | some operator =>
      obtain ⟨parser, found, rfl⟩ := exists_operator here
      have stands := ordered.stands found
      generalize parser.operator = operator at here stands
      cases stands with
      | slot slot _ => exact absurd slot inner.2
      | call _ slot =>
        obtain ⟨number, known⟩ := isSlot_iff.mp slot
        rw [startSet_call here known] at member
        exact .slot here (List.mem_singleton.mp member ▸ known)
      | inner _ other parts =>
        rw [startSet_parts here other] at member
        obtain ⟨part, head, member⟩ := List.mem_flatMap.mp member
        obtain ⟨before, plain⟩ := parts part (operator.startHeads_subset _ head)
        have inside : p.draft.IsInner p.parsers.size part := ⟨Nat.lt_trans before inner.1, plain⟩
        exact .part ⟨operator, here, head⟩ (slotIndex?_eq_none plain) (ih inside member)

/-- All calls that can be reached are in the start set. -/
theorem Starts.mem_startSet {id : ParserId} {index : Nat} (inner : p.draft.IsInner p.parsers.size id)
    (starts : p.Starts id index) : index ∈ p.startSet p.nullability p.parsers.size id := by
  induction starts with
  | slot here known =>
    obtain ⟨fuel, size⟩ : ∃ fuel, p.parsers.size = fuel + 1 :=
      ⟨p.parsers.size - 1, (Nat.succ_pred_eq_of_pos (Nat.lt_of_le_of_lt (Nat.zero_le _) inner.1)).symm⟩
    rw [size, startSet_call here known]
    exact List.mem_singleton.mpr rfl
  | part head plain _ ih =>
    obtain ⟨operator, here, head⟩ := head
    obtain ⟨parser, found, rfl⟩ := exists_operator here
    have stands := ordered.stands found
    generalize parser.operator = operator at here stands head
    cases stands with
    | slot slot _ => exact absurd slot inner.2
    | call _ slot =>
      obtain rfl := List.mem_singleton.mp head
      obtain ⟨number, known⟩ := isSlot_iff.mp slot
      rw [plain] at known
      cases known
    | inner _ other parts =>
      obtain below := parts _ (operator.startHeads_subset _ head)
      apply startSet_subset ordered here other below head
      exact ih ⟨Nat.lt_trans below.1 inner.1, below.2⟩

/-- The edges that are searched for circles are those of the relation between slots. -/
theorem edge_iff_leadsTo {i j : Nat} : Edge p.startEdges i j ↔ p.LeadsTo i j := by
  have body_inner : ∀ {slot name body}, (slot, name) ∈ p.slots → p.operator? slot = some (.call body) →
      p.draft.IsInner p.parsers.size body := by
    intro slot name body listed called
    obtain ⟨parser, found, same⟩ := exists_operator called
    have stands := ordered.stands found
    rw [same] at stands
    cases stands with
    | slot _ inner => exact inner
    | call plain _ => exact absurd ⟨name, listed⟩ plain
    | inner _ other _ => exact absurd rfl (other body)
  constructor
  · intro edge
    have inside : i < p.slots.length := by
      have := edge.lt
      rwa [startEdges, List.length_map] at this
    have here : p.slots[i]? = some (p.slots[i].1, p.slots[i].2) := List.getElem?_eq_getElem inside
    have member := (edge_startEdges here).mp edge
    rw [slotEdges] at member
    split at member
    · next body called =>
      have inner := body_inner (List.mem_of_getElem? here) called
      exact ⟨_, _, body, here, called, starts_of_mem_startSet ordered inner member⟩
    · cases member
  · rintro ⟨slot, name, body, here, called, starts⟩
    rw [edge_startEdges here, slotEdges, called]
    exact starts.mem_startSet ordered (body_inner (List.mem_of_getElem? here) called)

end Ordered

/-! ### Reports -/

/-- **Validation reports circles, and reports something if there are any.**  There are no violations exactly if no slot
of a compiled program leads back to itself; and each violation spells the names of the slots along a circle, which
starts from the slot of least number and passes no other slot twice. -/
theorem cycleViolations_report {g : Grammar} (made : ofGrammar g = .ok p) :
    (p.cycleViolations = [] ↔ ∀ i, ¬ TransGen p.LeadsTo i i) ∧
      ∃ routes : List (List Nat),
        p.cycleViolations = routes.map (fun route =>
          { kind := .possibleCycleDetected, message := "possible cycle detected: " ++ p.route route }) ∧
        ∀ route ∈ routes, ∃ root others, route = root :: (others ++ [root]) ∧ SimpleCircle p.LeadsTo root others := by
  have same : Edge p.startEdges = p.LeadsTo := by
    funext i j
    exact propext (edge_iff_leadsTo (inOrder_ofGrammar made))
  refine ⟨?_, findCycles p.startEdges, rfl, fun route found => ?_⟩
  · rw [cycleViolations, List.map_eq_nil_iff, findCycles_eq_nil_iff, same]
  · rw [← same]
    exact circle_of_mem_findCycles found

/-- Sums begin with an expression, and an expression may be a sum, also behind a sign that may be missing. -/
def signedSums : Grammar :=
  ⟨[("digit", .regex "[0-9]"),
    ("expression", .seq [.quant (.literal "-") 0 1, .choice [.rule "sum", .rule "digit"]]),
    ("sum", .seq [.rule "expression", .literal "+", .rule "digit"])]⟩

theorem cycleViolations_report_signedSums : ∃ p, ofGrammar signedSums = .ok p ∧
    p.cycleViolations
      = [{ kind := .possibleCycleDetected, message := "possible cycle detected: expression > sum > expression" }] ∧
    (p.cycleViolations = [] ↔ ∀ i, ¬ TransGen p.LeadsTo i i) ∧
      ∃ routes : List (List Nat),
        p.cycleViolations = routes.map (fun route =>
          { kind := .possibleCycleDetected, message := "possible cycle detected: " ++ p.route route }) ∧
        ∀ route ∈ routes, ∃ root others, route = root :: (others ++ [root]) ∧ SimpleCircle p.LeadsTo root others := by
  have runs : ((ofGrammar signedSums).toOption.map cycleViolations) = some
      [{ kind := .possibleCycleDetected, message := "possible cycle detected: expression > sum > expression" }] := by
    decide +kernel
  cases made : ofGrammar signedSums with
  | error e =>
    rw [made] at runs
    cases runs
  | ok p =>
    rw [made] at runs
    exact ⟨p, rfl, Option.some.inj runs, cycleViolations_report made⟩

end Program
end GrammarKit
