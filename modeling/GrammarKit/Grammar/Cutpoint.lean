/-
Module: GrammarKit.Grammar.Cutpoint
Purpose: Automatic cutpoints.  A literal that occurs only once in a grammar can be taken in one place
  only; once it has matched, no other alternative could have matched, so it becomes a cutpoint.
Main exports: Grammar.uniqueLiterals, Grammar.withCutpoints
-/
import GrammarKit.Term.Traversal

namespace GrammarKit
namespace Term

mutual
/-- The literals of a term, each as often as it counts.  A separator that may also lead its list counts
twice, and local rules count those literals once that are unique among them. -/
def literals : Term → List String
  | rule _ => []
  | literal text => [text]
  | regex _ => []
  | seq ts => literalsAll ts
  | choice ts => literalsAll ts
  | stack ts => literalsAll ts
  | list element separator style =>
      literals element ++ literals separator ++ (if style.leading then literals separator else [])
  | quant t _ _ => literals t
  | capture _ t => literals t
  | backref _ default => literalsDefault default
  | cut t => literals t
  | withRules t rules => literals t ++ uniqueLiteralsTable rules

/-- The literals of several terms. -/
def literalsAll : List Term → List String
  | [] => []
  | t :: ts => literals t ++ literalsAll ts

/-- The literals of a default. -/
def literalsDefault : Option Term → List String
  | none => []
  | some t => literals t

/-- The literals that occur once among the rules of a table. -/
def uniqueLiteralsTable : Table Term → List String
  | ⟨entries⟩ =>
      let all := literalsEntries entries
      all.filter fun text => all.count text == 1

/-- The literals of some entries; the padding rule is left out. -/
def literalsEntries : List (String × Term) → List String
  | [] => []
  | (name, t) :: entries =>
      (if name = paddingRule then [] else literals t) ++ literalsEntries entries
end

/-- Make a cutpoint of one of the given literals, and one cutpoint of two. -/
def cutLiteral (unique : List String) : Term → Term
  | literal text => if unique.contains text then cut (literal text) else literal text
  | cut (cut t) => cut t
  | t => t

end Term

namespace Grammar

/-- The literals that occur once in a grammar, in ascending order. -/
def uniqueLiterals (g : Grammar) : List String :=
  (Table.ofList ((Term.uniqueLiteralsTable g).map (·, ()))).names

/-- The grammar with cutpoints around the literals that occur once in it. -/
def withCutpoints (g : Grammar) : Grammar :=
  let unique := g.uniqueLiterals
  ⟨g.entries.map fun (name, t) =>
    (name, if name = paddingRule then t else t.transform (Term.cutLiteral unique))⟩

end Grammar
end GrammarKit
