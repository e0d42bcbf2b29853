/-
Module: GrammarKit.Generic.OfTree
Purpose: From concrete trees to generic trees.  A tree is walked together with the term that describes
  it; every rule and every capture opens a branch, and everything else adds to the branch that is open.
Main exports: Grammar.toGeneric
-/
import GrammarKit.Generic.Cardinality
import GrammarKit.Grammar.Stack
import GrammarKit.Unparse

namespace GrammarKit
namespace Generic

/-- A structural error as an error of the library. -/
def lift {α : Type} (result : Except StructuralError α) : Except Error α :=
  result.mapError .structural

/-- The shape of a list from its slots. -/
def listMark (slots : List Tree) : Mark :=
  let isElided : Tree → Bool
    | .elided => true
    | _ => false
  .list ((slots.length + 1) / 2) (slots.head?.any isElided)
    (decide (slots.length > 1) && slots.getLast?.any isElided)

/-- Add the leaf that a term expects to a field. -/
def addLeaf (counters : Counters) (field : String) (t : Term) (b : Branch) :
    Tree → Except Error Branch
  | .leaf s => lift (b.add field (.leaf s) (counters.isSingle field))
  | tree => Term.refuse (.leafFor t) tree

/-- Add an entry to a bookkeeping field. -/
def addMark (field : String) (mark : Mark) (b : Branch) : Except Error Branch :=
  lift (b.add field (.mark mark) false)

variable (enter : Scope → Term → Tree → Except Error Branch)

mutual
/-- Add what a tree holds, as a term describes it, to the branch that is open; `enter` makes the branch of
a rule from its body. -/
def collect (scope : Scope) (counters : Counters) : Term → Tree → Branch → Except Error Branch
  | .literal text, tree, b => addLeaf counters "" (.literal text) b tree
  | .regex pattern, tree, b => addLeaf counters "" (.regex pattern) b tree
  | .backref name default, tree, b => addLeaf counters name (.backref name default) b tree
  | .rule name, tree, b =>
      match scope.find? name with
      | some (body, scope) => do
          let child ← enter scope body tree
          lift (b.add (baseName name) (.branch child) (counters.isSingle (baseName name)))
      | none => .error (.unknownRule name)
  | .capture name t, tree, b => do
      let inner := Counters.ofTerm t
      let child ← collect scope inner t tree inner.emptyBranch
      lift (b.add name (.branch child) (counters.isSingle name))
  | .cut t, tree, b => collect scope counters t tree b
  | .withRules t rules, tree, b => collect (rules :: scope) counters t tree b
  | .seq ts, tree, b => do
      let children ← Term.nodeChildren (.seq ts) tree
      if children.length = ts.length then collectItems scope counters ts children b
      else Term.refuse (.childrenFor ts.length (.seq ts)) tree
  | .choice ts, tree, b =>
      match Term.chosen (.choice ts) tree with
      | .ok (index, child) => collectChosen scope counters (.choice ts) tree index ts index child b
      | .error error => .error error
  | .quant t min max, tree, b => do
      let children ← Term.nodeChildren (.quant t min max) tree
      let b ← addMark countField (.count children.length) b
      children.foldlM (fun b child => collect scope counters t child b) b
  | .list element separator style, tree, b => do
      let slots ← Term.listSlots (.list element separator style) tree
      let b ← addMark listField (listMark slots) b
      Term.walkSlots (collect scope counters element) (collect scope counters separator) slots b
  | .stack _, _, _ => .error (.structural .misplacedStack)

/-- Add the children of a sequence, one for each item. -/
def collectItems (scope : Scope) (counters : Counters) :
    List Term → List Tree → Branch → Except Error Branch
  | t :: ts, child :: children, b => do
      let b ← collect scope counters t child b
      collectItems scope counters ts children b
  | _, _, b => .ok b

/-- Add the child of a choice by the alternative that was taken: it is the one with a given index among
those left. -/
def collectChosen (scope : Scope) (counters : Counters) (whole : Term) (node : Tree) (chosen : Nat) :
    List Term → Nat → Tree → Branch → Except Error Branch
  | [], _, _, _ => Term.refuse (.alternativeOf whole) node
  | t :: _, 0, child, b => do
      let b ← addMark choiceField (.choice chosen) b
      collect scope counters t child b
  | _ :: ts, index + 1, child, b => collectChosen scope counters whole node chosen ts index child b
end

/-- The branch of a tree by the body of a rule, through at most the given number of rules. -/
def ofRule : Nat → Scope → Term → Tree → Except Error Branch
  | 0, _, _, _ => .error .endless
  | fuel + 1, scope, body, tree =>
      let counters := Counters.ofTerm body
      collect (ofRule fuel) scope counters body tree counters.emptyBranch

end Generic

/-- The generic tree of a concrete tree by a rule of a grammar without stacks. -/
def Grammar.flatToGeneric (g : Grammar) (rule : String) (tree : Tree) : Except Error Generic.Branch :=
  match if rule = paddingRule then none else g.get? rule with
  | some body => do
      let root ← Generic.ofRule (g.walkFuel tree) [g] body tree
      Generic.lift (root.add Generic.ruleField (.mark (.rule rule)) true)
  | none => .error (.unknownRule rule)

/-- The generic tree of a concrete tree by a rule of a grammar. -/
def Grammar.toGeneric (g : Grammar) (rule : String) (tree : Tree) : Except Error Generic.Branch := do
  let flat ← Generic.lift g.eliminateStacks
  flat.flatToGeneric rule tree

end GrammarKit
