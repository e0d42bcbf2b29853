/-
Module: GrammarKit.Grammar.Scope
Purpose: The rules that can be seen from a place in a grammar.  Rules of an inner grammar hide those of
  the same name further out, and the term of a rule sees what its place of definition sees.
Main exports: Scope, Scope.find?, Grammar.ruleCount
-/
import GrammarKit.Term

namespace GrammarKit

/-- The grammars around a place, the innermost first. -/
abbrev Scope := List Grammar

/-- The term of the rule that a name means, and the scope in which that term is to be read. -/
def Scope.find? (name : String) : Scope → Option (Term × Scope)
  | [] => none
  | g :: outer =>
      match g.get? name with
      | some t => some (t, g :: outer)
      | none => find? name outer

namespace Term

mutual
/-- The number of rules that a term defines, at any depth. -/
def ruleCount : Term → Nat
  | rule _ => 0
  | literal _ => 0
  | regex _ => 0
  | seq ts => ruleCountAll ts
  | choice ts => ruleCountAll ts
  | stack ts => ruleCountAll ts
  | list element separator _ => ruleCount element + ruleCount separator
  | quant t _ _ => ruleCount t
  | capture _ t => ruleCount t
  | backref _ default => ruleCountDefault default
  | cut t => ruleCount t
  | withRules t rules => ruleCount t + ruleCountTable rules

/-- The number of rules that several terms define. -/
def ruleCountAll : List Term → Nat
  | [] => 0
  | t :: ts => ruleCount t + ruleCountAll ts

/-- The number of rules that a default defines. -/
def ruleCountDefault : Option Term → Nat
  | none => 0
  | some t => ruleCount t

/-- The number of rules of a table and inside them. -/
def ruleCountTable : Table Term → Nat
  | ⟨entries⟩ => ruleCountEntries entries

/-- The number of rules of some entries and inside them. -/
def ruleCountEntries : List (String × Term) → Nat
  | [] => 0
  | (_, t) :: entries => ruleCount t + 1 + ruleCountEntries entries
end

end Term

/-- The number of rules of a grammar, local ones included. -/
def Grammar.ruleCount (g : Grammar) : Nat :=
  Term.ruleCountTable g

end GrammarKit
