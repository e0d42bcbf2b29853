/-
Module: GrammarKit.Error.Structural
Purpose: What can be wrong with the structure of a grammar, a tree or a generic tree: stacks in places
  where none may stand, fields that do not fit, shapes that a term cannot have produced.
Main exports: Expectation, StructuralError, StructuralError.message
-/
import GrammarKit.Spelling.Term

namespace GrammarKit

/-- What a walk expected to find. -/
inductive Expectation where
  | nodeFor (t : Term)
  | leafFor (t : Term)
  | childrenFor (count : Nat) (t : Term)
  | alternativeOf (t : Term)
  | listFor (t : Term)
  | oneField (name : String)
  | manyField (name : String)
  | leafIn (field : String)
  | branchIn (field : String)
  | bookkeepingIn (field : String)
  | ruleName
  | alternativeIndex
  | repetitionCount
  | listShape
  | listOperator
  | branchOf (rule : String)
deriving Inhabited, DecidableEq

/-- An expectation in words. -/
def Expectation.display : Expectation → String
  | nodeFor t => "a node for " ++ t.spell
  | leafFor t => "a scanner for " ++ t.spell
  | childrenFor count t => toString count ++ " children for " ++ t.spell
  | alternativeOf t => "a chosen alternative of " ++ t.spell
  | listFor t => "a list for " ++ t.spell
  | oneField name => "a One field " ++ quoted name
  | manyField name => "a Many field " ++ quoted name
  | leafIn field => "a leaf in field " ++ quoted field
  | branchIn field => "a branch in field " ++ quoted field
  | bookkeepingIn field => "bookkeeping in field " ++ quoted field
  | ruleName => "a rule name"
  | alternativeIndex => "an alternative index"
  | repetitionCount => "a repetition count"
  | listShape => "a list shape"
  | listOperator => "a list operator"
  | branchOf rule => "a " ++ rule ++ " branch"

/-- What is counted where a count is out of its bounds. -/
inductive Counted where
  | alternative
  | repetition
  | listTerm
deriving Repr, Inhabited, DecidableEq

/-- What is counted, in words. -/
def Counted.display : Counted → String
  | alternative => "alternative"
  | repetition => "repetition"
  | listTerm => "list term"

/-- What is wrong with a structure. -/
inductive StructuralError where
  | nestedStack (placeholder : String)
  | misplacedStack
  | layerNameClash (rule : String)
  | duplicateField (field : String)
  | missingField (field : String)
  | unconsumedField (field : String)
  | shapeMismatch (expected : Expectation) (found : String)
  /-- A count below `min` or above `max`, where none is no bound. -/
  | countOutOfBounds (what : Counted) (count min : Nat) (max : Option Nat)
deriving Inhabited, DecidableEq

/-- The name of the kind of error. -/
def StructuralError.kind : StructuralError → String
  | nestedStack _ => "NestedStack"
  | misplacedStack => "MisplacedStack"
  | layerNameClash _ => "LayerNameClash"
  | duplicateField _ => "DuplicateField"
  | missingField _ => "MissingField"
  | unconsumedField _ => "UnconsumedField"
  | shapeMismatch _ _ => "ShapeMismatch"
  | countOutOfBounds _ _ _ _ => "CountOutOfBounds"

/-- The error in words. -/
def StructuralError.message : StructuralError → String
  | nestedStack placeholder =>
      "stack nested inside another stack (placeholder " ++ quoted placeholder ++ ")"
  | misplacedStack => "stack outside a rule body"
  | layerNameClash rule => "stack layer name clashes with rule " ++ quoted rule
  | duplicateField field => "field " ++ quoted field ++ " assigned twice"
  | missingField field => "field " ++ quoted field ++ " missing or exhausted"
  | unconsumedField field => "field " ++ quoted field ++ " left with unconsumed values"
  | shapeMismatch expected found => "expected " ++ expected.display ++ ", found " ++ found
  | countOutOfBounds what count min max =>
      what.display ++ " count " ++ toString count ++ " outside " ++ toString min ++ "..="
        ++ (match max with
          | some max => toString max
          | none => "unbounded")

end GrammarKit
