/-
Module: GrammarKit.Grammar.Stack
Purpose: The elimination of precedence stacks.  A rule bound to a stack becomes one rule for each layer,
  in which the placeholder is the name of the next layer; the last layer leads back to the first.
Main exports: Term.resolve, Grammar.eliminateStacks, Grammar.hasStacks
-/
import GrammarKit.Error.Structural
import GrammarKit.Grammar.Layer
import GrammarKit.Term.Traversal

namespace GrammarKit
namespace Term

mutual
/-- Replace references to the rule `old` by references to `new`.  Local rules keep their own
placeholders, and a stack inside is refused. -/
def resolve (old new : String) : Term → Except StructuralError Term
  | rule name => .ok (rule (if name = old then new else name))
  | literal text => .ok (literal text)
  | regex pattern => .ok (regex pattern)
  | seq ts => (resolveAll old new ts).map seq
  | choice ts => (resolveAll old new ts).map choice
  | stack _ => .error (.nestedStack old)
  | list element separator style => do
      let element ← resolve old new element
      let separator ← resolve old new separator
      .ok (list element separator style)
  | quant t min max => (resolve old new t).map (quant · min max)
  | capture name t => (resolve old new t).map (capture name)
  | backref name default => (resolveDefault old new default).map (backref name)
  | cut t => (resolve old new t).map cut
  | withRules t rules => (resolve old new t).map (withRules · rules)

/-- Replace references in several terms. -/
def resolveAll (old new : String) : List Term → Except StructuralError (List Term)
  | [] => .ok []
  | t :: ts => do
      let t ← resolve old new t
      let ts ← resolveAll old new ts
      .ok (t :: ts)

/-- Replace references in a default. -/
def resolveDefault (old new : String) : Option Term → Except StructuralError (Option Term)
  | none => .ok none
  | some t => (resolve old new t).map some
end

/-- Whether a term is a stack. -/
def isStack : Term → Bool
  | stack _ => true
  | _ => false

end Term

namespace Grammar

/-- The rules for the layers of a stack from number `layer` on, where the stack has `count` layers. -/
def layerRules (name : String) (count : Nat) :
    Nat → List Term → Except StructuralError (List (String × Term))
  | _, [] => .ok []
  | layer, t :: ts => do
      let t ← t.resolve placeholder (layerName name ((layer + 1) % count))
      let rest ← layerRules name count (layer + 1) ts
      .ok ((layerName name layer, t) :: rest)

/-- The rules that a rule becomes. -/
def expandRule (name : String) : Term → Except StructuralError (List (String × Term))
  | .stack layers => layerRules name layers.length 0 layers
  | t => .ok [(name, t)]

/-- Add rules whose names must all be new. -/
def addNew (g : Grammar) : List (String × Term) → Except StructuralError Grammar
  | [] => .ok g
  | (name, t) :: rules =>
      if g.contains name then .error (.layerNameClash name) else addNew (g.insert name t) rules

/-- Expand rules in order and add what they become. -/
def addExpanded (g : Grammar) : List (String × Term) → Except StructuralError Grammar
  | [] => .ok g
  | (name, t) :: rules => do
      let layers ← expandRule name t
      let g ← addNew g layers
      addExpanded g rules

/-- Expand the stacks to which the rules of a grammar are bound, leaving local rules alone. -/
def eliminateLayers (g : Grammar) : Except StructuralError Grammar :=
  addExpanded Table.empty g.entries

/-- Expand the stacks among the local rules of a term. -/
def eliminateLocal : Term → Except StructuralError Term
  | .withRules t rules => (eliminateLayers rules).map (.withRules t)
  | t => .ok t

/-- Expand all stacks of a grammar, from the innermost rules outwards. -/
def eliminateStacks (g : Grammar) : Except StructuralError Grammar := do
  let g ← g.traverse eliminateLocal
  eliminateLayers g

/-- Whether a rule of a grammar is bound to a stack. -/
def hasStacks (g : Grammar) : Bool :=
  g.entries.any (·.2.isStack)

end Grammar
end GrammarKit
