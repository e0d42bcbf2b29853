/-
Module: GrammarKit.Generic.ToTree
Purpose: From generic trees back to concrete trees.  Each term takes its values out of the fields it adds
  them to, in the same order; the bookkeeping fields say which alternative, how many repetitions and which
  list.  A branch in which values are left over is refused.
Main exports: Grammar.ofGeneric
-/
import GrammarKit.Generic.OfTree

namespace GrammarKit
namespace Generic

/-- A structural error about a generic node. -/
def refuse {α : Type} (expected : Expectation) (found : Node) : Except Error α :=
  .error (.structural (.shapeMismatch expected found.display))

/-- Take a leaf out of a field. -/
def pullLeaf (counters : Counters) (field : String) (b : Branch) : Except Error (Tree × Branch) := do
  match ← lift (b.pull field (counters.isSingle field)) with
  | (.leaf s, b) => .ok (.leaf s, b)
  | (node, _) => refuse (.leafIn field) node

/-- Take a branch out of a field. -/
def pullBranch (counters : Counters) (field : String) (b : Branch) :
    Except Error (Branch × Branch) := do
  match ← lift (b.pull field (counters.isSingle field)) with
  | (.branch inner, b) => .ok (inner, b)
  | (node, _) => refuse (.branchIn field) node

/-- Take an entry out of a bookkeeping field. -/
def pullMark (field : String) (b : Branch) : Except Error (Mark × Branch) := do
  match ← lift (b.pull field false) with
  | (.mark mark, b) => .ok (mark, b)
  | (node, _) => refuse (.bookkeepingIn field) node

/-- Take the index of an alternative. -/
def pullChoice (b : Branch) : Except Error (Nat × Branch) := do
  match ← pullMark choiceField b with
  | (.choice index, b) => .ok (index, b)
  | (mark, _) => refuse .alternativeIndex (.mark mark)

/-- Take a number of repetitions, which must be within the bounds. -/
def pullCount (min max : Nat) (b : Branch) : Except Error (Nat × Branch) := do
  match ← pullMark countField b with
  | (.count n, b) =>
      if n < min ∨ (max ≠ 0 ∧ n > max) then
        .error (.structural (.countOutOfBounds .repetition n min (if max = 0 then none else some max)))
      else .ok (n, b)
  | (mark, _) => refuse .repetitionCount (.mark mark)

/-- Take the shape of a list, which must have an element that is not elided. -/
def pullList (b : Branch) : Except Error ((Nat × Bool × Bool) × Branch) := do
  match ← pullMark listField b with
  | (.list terms leading trailing, b) =>
      let least := 1 + leading.toNat + trailing.toNat
      if terms < least then .error (.structural (.countOutOfBounds .listTerm terms least none))
      else .ok ((terms, leading, trailing), b)
  | (mark, _) => refuse .listShape (.mark mark)

/-- Rebuild `n` trees one after the other. -/
def rebuildTimes (step : Branch → Except Error (Tree × Branch)) :
    Nat → Branch → Except Error (List Tree × Branch)
  | 0, b => .ok ([], b)
  | n + 1, b => do
      let (tree, b) ← step b
      let (trees, b) ← rebuildTimes step n b
      .ok (tree :: trees, b)

/-- Rebuild the slots of a list from the element with a given number on, where `left` elements are left
besides it. -/
def rebuildSlots (element separator : Branch → Except Error (Tree × Branch)) (leading trailing : Bool) :
    Nat → Bool → Branch → Except Error (List Tree × Branch)
  | left, first, b => do
      let elided := (first && leading) || (left == 0 && trailing)
      let (slot, b) ← if elided then .ok (.elided, b) else element b
      match left with
      | 0 => .ok ([slot], b)
      | left + 1 => do
          let (between, b) ← separator b
          let (slots, b) ← rebuildSlots element separator leading trailing left false b
          .ok (slot :: between :: slots, b)

variable (enter : Scope → Term → String → Branch → Except Error Tree)

mutual
/-- Rebuild the tree of a term from the fields of a branch; `enter` does so for the body of a rule and the
branch of that rule. -/
def rebuild (scope : Scope) (counters : Counters) (label : Option String) :
    Term → Branch → Except Error (Tree × Branch)
  | .literal _, b => pullLeaf counters "" b
  | .regex _, b => pullLeaf counters "" b
  | .backref name _, b => pullLeaf counters name b
  | .rule name, b =>
      match scope.find? name with
      | some (body, scope) => do
          let (child, b) ← pullBranch counters (baseName name) b
          let tree ← enter scope body name child
          .ok (tree, b)
      | none => .error (.unknownRule name)
  | .capture name t, b => do
      let (child, b) ← pullBranch counters name b
      let (tree, child) ← rebuild scope (Counters.ofTerm t) (some name) t child
      lift child.ensureConsumed
      .ok (tree, b)
  | .cut t, b => rebuild scope counters label t b
  | .withRules t rules, b => rebuild (rules :: scope) counters label t b
  | .seq ts, b => do
      let (children, b) ← rebuildItems scope counters ts b
      .ok (.node (label.getD Tree.seqTag) none children, b)
  | .choice ts, b => do
      let (index, b) ← pullChoice b
      let (child, b) ← rebuildChosen scope counters index ts.length ts index b
      .ok (.node (label.getD Tree.choiceTag) (some (.choice index)) [child], b)
  | .quant t min max, b => do
      let (n, b) ← pullCount min max b
      let (children, b) ← rebuildTimes (rebuild scope counters none t) n b
      .ok (.node (label.getD Tree.quantTag) none children, b)
  | .list element separator style, b => do
      let ((terms, leading, trailing), b) ← pullList b
      let (slots, b) ← rebuildSlots (rebuild scope counters none element)
        (rebuild scope counters none separator) leading trailing (terms - 1) true b
      .ok (.ofSlots (label.getD Tree.listTag) style.assoc slots, b)
  | .stack _, _ => .error (.structural .misplacedStack)

/-- Rebuild the trees of the items of a sequence. -/
def rebuildItems (scope : Scope) (counters : Counters) :
    List Term → Branch → Except Error (List Tree × Branch)
  | [], b => .ok ([], b)
  | t :: ts, b => do
      let (tree, b) ← rebuild scope counters none t b
      let (trees, b) ← rebuildItems scope counters ts b
      .ok (tree :: trees, b)

/-- Rebuild the tree of the alternative that was taken: it is the one with a given index among those
left. -/
def rebuildChosen (scope : Scope) (counters : Counters) (chosen count : Nat) :
    List Term → Nat → Branch → Except Error (Tree × Branch)
  | [], _, _ => .error (.structural (.countOutOfBounds .alternative chosen 0 (some (count - 1))))
  | t :: _, 0, b => rebuild scope counters none t b
  | _ :: ts, index + 1, b => rebuildChosen scope counters chosen count ts index b
end

/-- Rebuild the tree of a rule from its branch, through branches of at most the given depth. -/
def toRule : Nat → Scope → Term → String → Branch → Except Error Tree
  | 0, _, _, _, _ => .error .endless
  | fuel + 1, scope, body, name, b => do
      let (tree, b) ← rebuild (toRule fuel) scope (Counters.ofTerm body) (some name) body b
      lift b.ensureConsumed
      .ok tree

end Generic

/-- The concrete tree of a generic tree by the rule that it names, in a grammar without stacks. -/
def Grammar.flatOfGeneric (g : Grammar) (b : Generic.Branch) : Except Error Tree := do
  match ← Generic.lift (b.pull Generic.ruleField true) with
  | (.mark (.rule rule), root) =>
      match if rule = paddingRule then none else g.get? rule with
      | some body => Generic.toRule (b.depth + 1) [g] body rule root
      | none => .error (.unknownRule rule)
  | (node, _) => Generic.refuse .ruleName node

/-- The concrete tree of a generic tree by the rule that it names. -/
def Grammar.ofGeneric (g : Grammar) (b : Generic.Branch) : Except Error Tree := do
  let flat ← Generic.lift g.eliminateStacks
  flat.flatOfGeneric b

end GrammarKit
