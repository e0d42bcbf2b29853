/-
Module: GrammarKit.Validation.Terms
Purpose: Checks on the terms of a grammar as it is written, with its stacks still in place.  All
  violations are collected, in the order in which a reader meets them.
Main exports: Grammar.termViolations
-/
import GrammarKit.Error.Violation
import GrammarKit.Regex
import GrammarKit.Term

namespace GrammarKit
namespace Term

/-- What the checks need to know about the place of a term. -/
structure Place where
  /-- The rule that the term belongs to. -/
  rule : String
  /-- The names of the rules that can be seen. -/
  known : List String
  /-- Whether the term belongs to a layer of a stack, where the placeholder means the next layer. -/
  inStack : Bool

/-- A violation found at a place. -/
def Place.report (p : Place) (kind : ViolationKind) (message : String) : List Violation :=
  [{ kind := kind, message := p.rule ++ ": " ++ message }]

/-- The name that a captured item of a sequence uses up. -/
def captureName? : Term → Option String
  | capture name _ => if name = "" then none else some name
  | _ => none

/-- A reference to a rule that cannot be seen. -/
def referenceViolations (p : Place) (name : String) : List Violation :=
  if (p.inStack && name == placeholder) || p.known.contains name then []
  else p.report .unknownRule ("identifier '" ++ name ++ "' is not a defined rule")

/-- A pattern that is none. -/
def patternViolations (p : Place) (pattern : String) : List Violation :=
  match Regex.compile pattern with
  | .ok _ => []
  | .error error =>
      p.report .invalidRegex ("regex '" ++ pattern ++ "' is not valid, " ++ error.report pattern)

/-- Bounds of a repetition that exclude each other. -/
def boundViolations (p : Place) (min max : Nat) : List Violation :=
  if min ≠ 0 ∧ max ≠ 0 ∧ min > max then
    p.report .minMaxQuantError
      ("quant: min (" ++ toString min ++ ") > max (" ++ toString max ++ ")")
  else []

/-- A capture with the name of a rule. -/
def clashViolations (p : Place) (name : String) : List Violation :=
  if p.known.contains name then
    p.report .nameClashesWithRule ("identifier '" ++ name ++ "' clashes with a defined rule")
  else []

/-- An item of a sequence whose name an earlier item has used. -/
def repeatViolations (p : Place) (seen : List String) (t : Term) : List Violation :=
  match t.captureName? with
  | some name =>
      if seen.contains name then
        p.report .multipleTermsWithSameName
          ("identifier '" ++ name ++ "' is being used multiple times in a single term")
      else []
  | none => []

mutual
/-- The violations in a term. -/
def violations (p : Place) : Term → List Violation
  | rule name => referenceViolations p name
  | literal _ => []
  | regex pattern => patternViolations p pattern
  | seq ts => itemViolations p [] ts
  | choice ts => violationsAll p ts
  | stack _ => p.report .nestedStack "precedence stack nested in a term"
  | list element separator _ => violations p element ++ violations p separator
  | quant t min max => boundViolations p min max ++ violations p t
  | capture name t => clashViolations p name ++ violations p t
  | backref _ default => defaultViolations p default
  | cut t => violations p t
  | withRules t rules =>
      let known := rules.names ++ p.known
      tableViolations known rules ++ violations { p with known := known } t

/-- The violations in the items of a sequence, some of whose names have been seen before. -/
def itemViolations (p : Place) (seen : List String) : List Term → List Violation
  | [] => []
  | t :: ts =>
      repeatViolations p seen t ++ violations p t
        ++ itemViolations p (t.captureName?.toList ++ seen) ts

/-- The violations in several terms. -/
def violationsAll (p : Place) : List Term → List Violation
  | [] => []
  | t :: ts => violations p t ++ violationsAll p ts

/-- The violations in a default. -/
def defaultViolations (p : Place) : Option Term → List Violation
  | none => []
  | some t => violations p t

/-- The violations in the rules of a table, given all names that can be seen from them. -/
def tableViolations (known : List String) : Table Term → List Violation
  | ⟨entries⟩ => entryViolations known entries

/-- The violations in some rules.  A stack may stand only directly under a rule, and the padding rule is
not checked unless it is a stack. -/
def entryViolations (known : List String) : List (String × Term) → List Violation
  | [] => []
  | (name, stack layers) :: entries =>
      violationsAll ⟨name, known, true⟩ layers ++ entryViolations known entries
  | (name, t) :: entries =>
      (if name = paddingRule then [] else violations ⟨name, known, false⟩ t)
        ++ entryViolations known entries
end

end Term

/-- The violations in the terms of a grammar. -/
def Grammar.termViolations (g : Grammar) : List Violation :=
  Term.tableViolations g.names g

end GrammarKit
