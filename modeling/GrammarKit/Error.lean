/-
Module: GrammarKit.Error
Purpose: All that can go wrong between a grammar source and the results of a parse.
Main exports: Error, Error.message
-/
import GrammarKit.Error.Failure
import GrammarKit.Error.Structural
import GrammarKit.Error.Violation
import GrammarKit.Tree

namespace GrammarKit

/-- The errors of the library. -/
inductive Error where
  /-- The input does not match. -/
  | parse (failure : Failure)
  /-- The input does not match, and a cutpoint had ruled out the alternatives that were left. -/
  | fatal (failure : Failure)
  /-- Only a part of the input matches. -/
  | unconsumedInput (residue : Slice) (tree : Tree)
  | unknownRule (name : String)
  /-- The grammar is ill-formed. -/
  | grammar (violations : List Violation)
  | structural (error : StructuralError)
  /-- A rule calls itself for ever without taking input. -/
  | endless
deriving Inhabited

namespace Error

/-- The name of the kind of an error. -/
def kind : Error → String
  | parse _ => "Parse"
  | fatal _ => "Fatal"
  | unconsumedInput _ _ => "UnconsumedInput"
  | unknownRule _ => "UnknownRule"
  | grammar _ => "Grammar"
  | structural _ => "Structural"
  | endless => "Endless"

/-- An error in words. -/
def message : Error → String
  | parse failure => failure.message
  | fatal failure => "fatal " ++ failure.message
  | unconsumedInput residue _ => "unconsumed input:" ++ residue.context Slice.contextLines
  | unknownRule name => "unknown rule " ++ quoted name
  | grammar violations => Violation.report violations
  | structural error => error.message
  | endless => "endless recursion"

end Error
end GrammarKit
