/-
Module: GrammarKit.Error.Violation
Purpose: What makes a grammar ill-formed.  All violations of a grammar are collected and reported
  together.
Main exports: ViolationKind, Violation, Violation.report
-/

namespace GrammarKit

/-- The kinds of violations. -/
inductive ViolationKind where
  | duplicatedRule
  | unknownRule
  | invalidRegex
  | nameClashesWithRule
  | minMaxQuantError
  | multipleTermsWithSameName
  | possibleCycleDetected
  | invalidWrapRE
  | invalidLiteral
  | nestedStack
deriving Repr, Inhabited, DecidableEq

/-- The name of a kind, as reports show it. -/
def ViolationKind.display : ViolationKind → String
  | duplicatedRule => "DuplicatedRule"
  | unknownRule => "UnknownRule"
  | invalidRegex => "InvalidRegex"
  | nameClashesWithRule => "NameClashesWithRule"
  | minMaxQuantError => "MinMaxQuantError"
  | multipleTermsWithSameName => "MultipleTermsWithSameName"
  | possibleCycleDetected => "PossibleCycleDetected"
  | invalidWrapRE => "InvalidWrapRE"
  | invalidLiteral => "InvalidLiteral"
  | nestedStack => "NestedStack"

/-- A violation, with its line and column where it has a place in a source. -/
structure Violation where
  kind : ViolationKind
  message : String
  position : Option (Nat × Nat) := none
deriving Repr, Inhabited, DecidableEq

namespace Violation

/-- A violation on one line. -/
def display (v : Violation) : String :=
  (match v.position with
    | some (line, column) => toString line ++ ":" ++ toString column ++ ": "
    | none => "")
    ++ v.kind.display ++ ": " ++ v.message

/-- All violations of a grammar. -/
def report (violations : List Violation) : String :=
  "invalid grammar" ++ String.join (violations.map fun v => "\n  " ++ v.display)

end Violation
end GrammarKit
