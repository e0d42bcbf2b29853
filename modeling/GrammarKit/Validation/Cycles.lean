/-
Module: GrammarKit.Validation.Cycles
Purpose: The search for rules that can reach themselves without taking input.  It first finds the parsers
  that may match without input, then the rules that a rule may call before it has taken any, and then the
  circles of that relation.
Main exports: Program.nullability, Program.startEdges, findCycles, Program.cycleViolations
-/
import GrammarKit.Error.Violation
import GrammarKit.Program

namespace GrammarKit

/-! ### Parsers that may match without input -/

/-- Whether a parser may match without input, if the given ones may. -/
def Operator.nullableFrom (nullable : ParserId → Bool) : Operator → Bool
  | pending _ => false
  | terminal t => t.nullable
  | call target => nullable target
  | cut inner => nullable inner
  | seq items => items.all fun item => nullable item.parser
  | choice alternatives => alternatives.any nullable
  | list element _ _ _ => nullable element
  | quant term min _ => min == 0 || nullable term
  | backref _ _ => true

namespace Program

/-- Whether an index is marked. -/
def isMarked (marks : Array Bool) (id : ParserId) : Bool :=
  marks[id]?.getD false

/-- Mark the parsers that may match without input if the marked ones may, in order. -/
def markNullable (p : Program) (marks : Array Bool) : Array Bool :=
  p.parsers.toList.zipIdx.foldl (fun marks (parser, id) =>
    if parser.operator.nullableFrom (isMarked marks) then marks.setIfInBounds id true else marks) marks

/-- Mark until nothing changes.  Each round but the last marks at least one parser more. -/
def markUntilStable (p : Program) : Nat → Array Bool → Array Bool
  | 0, marks => marks
  | fuel + 1, marks =>
      let marked := p.markNullable marks
      if marked = marks then marks else markUntilStable p fuel marked

/-- The parsers that may match without input: the least set that is closed under the rules above. -/
def nullability (p : Program) : Array Bool :=
  p.markUntilStable (p.parsers.size + 1) (Array.replicate p.parsers.size false)

/-! ### Calls before any input is taken -/

/-- The number of a slot among all slots. -/
def slotIndex? (p : Program) (slot : ParserId) : Option Nat :=
  p.slots.findIdx? (·.1 == slot)

/-- Items of a sequence that may be reached before input is taken: all up to the first that takes some. -/
def reachableItems (nullable : Array Bool) : List Item → List ParserId
  | [] => []
  | item :: items =>
      item.parser :: (if isMarked nullable item.parser then reachableItems nullable items else [])

/-- The rules that a parser may call before any input is taken, by the numbers of their slots.  A program
refers backwards except in calls of rules, so the number of parsers bounds the depth. -/
def startSet (p : Program) (nullable : Array Bool) : Nat → ParserId → List Nat
  | 0, _ => []
  | fuel + 1, id =>
      let all := fun ids => ids.flatMap (startSet p nullable fuel)
      match p.operator? id with
      | some (.call target) =>
          match p.slotIndex? target with
          | some rule => [rule]
          | none => startSet p nullable fuel target
      | some (.cut inner) => startSet p nullable fuel inner
      | some (.seq items) => all (reachableItems nullable items)
      | some (.choice alternatives) => all alternatives
      | some (.quant term _ _) => startSet p nullable fuel term
      | some (.list element separator style _) =>
          all (if style.leading then [element, separator] else [element])
      | some (.backref _ (some default)) => startSet p nullable fuel default
      | _ => []

/-- The rules that the rule of a slot may call before any input is taken. -/
def slotEdges (p : Program) (nullable : Array Bool) (slot : ParserId) : List Nat :=
  match p.operator? slot with
  | some (.call body) => startSet p nullable p.parsers.size body
  | _ => []

/-- Put a number in its place among ascending numbers, once. -/
def insertNumber (n : Nat) : List Nat → List Nat
  | [] => [n]
  | m :: ms => if n < m then n :: m :: ms else if n = m then m :: ms else m :: insertNumber n ms

/-- For each slot, in order, the rules it may call before any input is taken, in ascending order. -/
def startEdges (p : Program) : List (List Nat) :=
  let nullable := p.nullability
  p.slots.map fun (slot, _) => (p.slotEdges nullable slot).foldr insertNumber []

end Program

/-! ### Circles -/

/-- What a search has visited and found. -/
structure CycleSearch where
  visited : List Nat
  cycles : List (List Nat)
deriving Repr, Inhabited, DecidableEq

/-- Go on from `at` along edges to numbers above `root`, each visited once, and note the paths that lead
back to `root`.  `path` holds the way so far, the last number first. -/
def searchCycles (edges : List (List Nat)) (root : Nat) :
    Nat → List Nat → Nat → CycleSearch → CycleSearch
  | 0, _, _, search => search
  | fuel + 1, path, here, search =>
      (edges[here]?.getD []).foldl (fun search next =>
        if next = root then
          { search with cycles := search.cycles ++ [(root :: path).reverse] }
        else if next > root ∧ ¬ search.visited.contains next then
          searchCycles edges root fuel (next :: path) next
            { search with visited := next :: search.visited }
        else search) search

/-- The circles found from each number in turn. -/
def findCycles (edges : List (List Nat)) : List (List Nat) :=
  (List.range edges.length).flatMap fun root =>
    (searchCycles edges root edges.length [root] root ⟨[root], []⟩).cycles

namespace Program

/-- The route of a circle through the rules. -/
def route (p : Program) (cycle : List Nat) : String :=
  String.intercalate " > " (cycle.map fun i => (p.slots[i]?.map (·.2)).getD "")

/-- The circles of rules that may call each other without taking input. -/
def cycleViolations (p : Program) : List Violation :=
  (findCycles p.startEdges).map fun cycle =>
    { kind := .possibleCycleDetected
      message := "possible cycle detected: " ++ p.route cycle }

end Program
end GrammarKit
