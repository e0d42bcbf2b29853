/-
Module: GrammarKit.Term.Traversal
Purpose: Passing all parts of a term through a function, from the inside out, local rules included.
Main exports: Term.traverse, Grammar.traverse, Term.eraseCuts
-/
import GrammarKit.Term

namespace GrammarKit
namespace Term

variable {ε : Type}

mutual
/-- Pass all parts of a term through a function, and then the term made of the results. -/
def traverse (f : Term → Except ε Term) : Term → Except ε Term
  | rule name => f (rule name)
  | literal text => f (literal text)
  | regex pattern => f (regex pattern)
  | seq ts => do f (seq (← traverseAll f ts))
  | choice ts => do f (choice (← traverseAll f ts))
  | stack ts => do f (stack (← traverseAll f ts))
  | list element separator style => do
      let element ← traverse f element
      let separator ← traverse f separator
      f (list element separator style)
  | quant t min max => do f (quant (← traverse f t) min max)
  | capture name t => do f (capture name (← traverse f t))
  | backref name default => do f (backref name (← traverseDefault f default))
  | cut t => do f (cut (← traverse f t))
  | withRules t rules => do
      let t ← traverse f t
      let rules ← traverseTable f rules
      f (withRules t rules)

/-- Traverse several terms in order. -/
def traverseAll (f : Term → Except ε Term) : List Term → Except ε (List Term)
  | [] => .ok []
  | t :: ts => do
      let t ← traverse f t
      let ts ← traverseAll f ts
      .ok (t :: ts)

/-- Traverse a default. -/
def traverseDefault (f : Term → Except ε Term) : Option Term → Except ε (Option Term)
  | none => .ok none
  | some t => do
      let t ← traverse f t
      .ok (some t)

/-- Traverse the rules of a table. -/
def traverseTable (f : Term → Except ε Term) : Table Term → Except ε (Table Term)
  | ⟨entries⟩ => do
      let entries ← traverseEntries f entries
      .ok ⟨entries⟩

/-- Traverse the rules of some entries in order. -/
def traverseEntries (f : Term → Except ε Term) : List (String × Term) → Except ε (List (String × Term))
  | [] => .ok []
  | (name, t) :: entries => do
      let t ← traverse f t
      let entries ← traverseEntries f entries
      .ok ((name, t) :: entries)
end

end Term

/-- Traverse all rules of a grammar. -/
def Grammar.traverse {ε : Type} (f : Term → Except ε Term) (g : Grammar) : Except ε Grammar :=
  Term.traverseTable f g

namespace Term

mutual
/-- The traversal by a function that cannot fail. -/
def transform (f : Term → Term) : Term → Term
  | rule name => f (rule name)
  | literal text => f (literal text)
  | regex pattern => f (regex pattern)
  | seq ts => f (seq (transformAll f ts))
  | choice ts => f (choice (transformAll f ts))
  | stack ts => f (stack (transformAll f ts))
  | list element separator style => f (list (transform f element) (transform f separator) style)
  | quant t min max => f (quant (transform f t) min max)
  | capture name t => f (capture name (transform f t))
  | backref name default => f (backref name (transformDefault f default))
  | cut t => f (cut (transform f t))
  | withRules t rules => f (withRules (transform f t) (transformTable f rules))

/-- Transform several terms. -/
def transformAll (f : Term → Term) : List Term → List Term
  | [] => []
  | t :: ts => transform f t :: transformAll f ts

/-- Transform a default. -/
def transformDefault (f : Term → Term) : Option Term → Option Term
  | none => none
  | some t => some (transform f t)

/-- Transform the rules of a table. -/
def transformTable (f : Term → Term) : Table Term → Table Term
  | ⟨entries⟩ => ⟨transformEntries f entries⟩

/-- Transform the rules of some entries. -/
def transformEntries (f : Term → Term) : List (String × Term) → List (String × Term)
  | [] => []
  | (name, t) :: entries => (name, transform f t) :: transformEntries f entries
end

/-- Take away a cutpoint at the outside of a term. -/
def dropCut : Term → Term
  | cut t => t
  | t => t

/-- A term without its cutpoints. -/
def eraseCuts : Term → Term :=
  transform dropCut

end Term

/-- Transform all rules of a grammar. -/
def Grammar.transform (f : Term → Term) (g : Grammar) : Grammar :=
  Term.transformTable f g

/-- A grammar without its cutpoints, local rules included. -/
def Grammar.eraseCuts (g : Grammar) : Grammar :=
  g.transform Term.dropCut

end GrammarKit
