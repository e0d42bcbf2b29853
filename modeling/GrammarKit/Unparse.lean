/-
Module: GrammarKit.Unparse
Purpose: From trees back to texts.  A tree is walked together with the term that describes it, and its
  leaves are written out.  Padding that was skipped around terminals is not in the tree and is not written.
Main exports: Term.unparse, Grammar.unparse
-/
import GrammarKit.Error
import GrammarKit.Grammar.Scope
import GrammarKit.Tree.DelimitedList

namespace GrammarKit
namespace Term

/-- A structural error of a walk. -/
def refuse {α : Type} (expected : Expectation) (found : Tree) : Except Error α :=
  .error (.structural (.shapeMismatch expected found.display))

/-- The children of the node that a term expects. -/
def nodeChildren (t : Term) : Tree → Except Error (List Tree)
  | .node _ _ children => .ok children
  | tree => refuse (.nodeFor t) tree

/-- The alternative that a choice node took, and the tree of it. -/
def chosen (t : Term) (tree : Tree) : Except Error (Nat × Tree) := do
  let children ← nodeChildren t tree
  match tree.choice?, children with
  | some index, [child] => .ok (index, child)
  | _, _ => refuse (.alternativeOf t) tree

/-- The slots of the list node that a term expects. -/
def listSlots (t : Term) (tree : Tree) : Except Error (List Tree) := do
  let _ ← nodeChildren t tree
  match tree.slots? with
  | some slots => .ok slots
  | none => refuse (.listFor t) tree

/-- Walk the slots of a list in order: elements and separators in turn, without the elided slots. -/
def walkSlots {α : Type} (element separator : Tree → α → Except Error α) :
    List Tree → α → Except Error α
  | [], a => .ok a
  | slot :: slots, a => do
      let a ← match slot with
        | .elided => .ok a
        | slot => element slot a
      walkSlots separator element slots a

/-- The characters of the leaf that a term expects. -/
def unparseLeaf (t : Term) : Tree → Except Error (List Char)
  | .leaf s => .ok s.chars
  | tree => refuse (.leafFor t) tree

variable (enter : Scope → Term → Tree → Except Error (List Char))

mutual
/-- The text of a tree as a term describes it; `enter` does the same for the body of a rule. -/
def unparse (scope : Scope) : Term → Tree → Except Error (List Char)
  | literal text, tree => unparseLeaf (literal text) tree
  | regex pattern, tree => unparseLeaf (regex pattern) tree
  | backref name default, tree => unparseLeaf (backref name default) tree
  | rule name, tree =>
      match scope.find? name with
      | some (body, scope) => enter scope body tree
      | none => .error (.unknownRule name)
  | capture _ t, tree => unparse scope t tree
  | cut t, tree => unparse scope t tree
  | withRules t rules, tree => unparse (rules :: scope) t tree
  | seq ts, tree => do
      let children ← nodeChildren (seq ts) tree
      if children.length = ts.length then unparseItems scope ts children
      else refuse (.childrenFor ts.length (seq ts)) tree
  | choice ts, tree =>
      match chosen (choice ts) tree with
      | .ok (index, child) => unparseChosen scope (choice ts) tree ts index child
      | .error error => .error error
  | quant t min max, tree => do
      let children ← nodeChildren (quant t min max) tree
      let texts ← children.mapM fun child => unparse scope t child
      .ok texts.flatten
  | list element separator style, tree => do
      let slots ← listSlots (list element separator style) tree
      let texts ← walkSlots (fun slot texts => (unparse scope element slot).map (· :: texts))
        (fun slot texts => (unparse scope separator slot).map (· :: texts)) slots []
      .ok texts.reverse.flatten
  | stack _, _ => .error (.structural .misplacedStack)

/-- The text of the children of a sequence, one for each item. -/
def unparseItems (scope : Scope) : List Term → List Tree → Except Error (List Char)
  | t :: ts, child :: children => do
      let text ← unparse scope t child
      let rest ← unparseItems scope ts children
      .ok (text ++ rest)
  | _, _ => .ok []

/-- The text of the child of a choice, by the alternative with a given index. -/
def unparseChosen (scope : Scope) (whole : Term) (node : Tree) :
    List Term → Nat → Tree → Except Error (List Char)
  | [], _, _ => refuse (.alternativeOf whole) node
  | t :: _, 0, child => unparse scope t child
  | _ :: ts, index + 1, child => unparseChosen scope whole node ts index child
end

/-- The text of a tree by the body of a rule, through at most the given number of rules. -/
def unparseRule : Nat → Scope → Term → Tree → Except Error (List Char)
  | 0, _, _, _ => .error .endless
  | fuel + 1, scope, body, tree => unparse (unparseRule fuel) scope body tree

end Term

/-- How many rules a walk over a tree can pass through: between two steps down the tree each rule at most
once, if no rule reaches itself without taking input. -/
def Grammar.walkFuel (g : Grammar) (tree : Tree) : Nat :=
  (g.ruleCount + 1) * (tree.depth + 1)

/-- The text of a tree by a rule of a grammar without stacks. -/
def Grammar.unparse (g : Grammar) (rule : String) (tree : Tree) : Except Error String :=
  match if rule = paddingRule then none else g.get? rule with
  | some body => (Term.unparseRule (g.walkFuel tree) [g] body tree).map String.ofList
  | none => .error (.unknownRule rule)

end GrammarKit
