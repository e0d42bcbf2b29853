/-
Module: GrammarKit.Error.Failure
Purpose: Why a parse failed.  A failure is a tree: a term fails because the terms in it failed.  A failure
  remembers the generation of cutpoints it belongs to, which decides whether alternatives are still tried.
Main exports: Cause, Failure, Failure.furthest, Failure.message
-/
import GrammarKit.Text.Quoted

namespace GrammarKit

/-- The number of characters of input that a failure shows. -/
def excerptLength : Nat := 40

/-- The beginning of some input, in quotes. -/
def excerpt (input : List Char) : String :=
  if (input.drop excerptLength).isEmpty then quotedChars input
  else quotedChars (input.take excerptLength) ++ "  ..."

/-- Why a term did not match. -/
inductive Cause where
  /-- A terminal, written as given, found other input. -/
  | terminal (expected : String) (input : List Char)
  /-- A rule that was left without a body. -/
  | uncompiled (rule : String)
  /-- An item of a labelled sequence failed. -/
  | element (index : Nat)
  | noAlternative
  | tooFewRepetitions (min found : Nat)
  | emptyList
  /-- The input does not repeat the text that a name is bound to. -/
  | backrefNotMatched (bound input : List Char)
  | backrefNotFound
deriving Repr, Inhabited, DecidableEq

namespace Cause

/-- The name of the kind of a cause. -/
def kind : Cause → String
  | terminal _ _ => "Terminal"
  | uncompiled _ => "Terminal"
  | element _ => "Sequence"
  | noAlternative => "NoAlternative"
  | tooFewRepetitions _ _ => "TooFewRepetitions"
  | emptyList => "EmptyList"
  | backrefNotMatched _ _ => "BackrefNotMatched"
  | backrefNotFound => "BackrefNotFound"

/-- A cause in words. -/
def message : Cause → String
  | terminal expected _ => "expect: " ++ expected
  | uncompiled rule => "rule " ++ quoted rule ++ " was never compiled"
  | element i => "element " ++ toString i ++ " failed"
  | noAlternative => "None of the available options could be satisfied"
  | tooFewRepetitions min found =>
      "expected at least " ++ toString min ++ " repetitions, found " ++ toString found
  | emptyList => "no first list element"
  | backrefNotMatched _ _ => "Backref not matched"
  | backrefNotFound => "Backref not found"

/-- Further remarks on a cause. -/
def notes : Cause → List String
  | terminal _ input => ["actual: " ++ excerpt input]
  | backrefNotMatched bound input =>
      ["expected: " ++ quotedChars bound, "actual: " ++ excerpt input]
  | _ => []

end Cause

/-- A failed match: the rule it happened in, the cause, the offset in bytes, the generation of cutpoints
that it is fatal for, and the failures that led to it. -/
inductive Failure where
  | mk (rule : String) (cause : Cause) (offset : Nat) (generation : Option Nat)
      (children : List Failure)
deriving Inhabited

namespace Failure

def rule : Failure → String
  | mk rule _ _ _ _ => rule

def cause : Failure → Cause
  | mk _ cause _ _ _ => cause

/-- Where the failure happened. -/
def offset : Failure → Nat
  | mk _ _ offset _ _ => offset

/-- The generation that the failure is fatal for. -/
def generation : Failure → Option Nat
  | mk _ _ _ generation _ => generation

def children : Failure → List Failure
  | mk _ _ _ _ children => children

/-- The same failure in another generation. -/
def retag (generation : Option Nat) : Failure → Failure
  | mk rule cause offset _ children => mk rule cause offset generation children

mutual
/-- The greatest offset in a tree of failures. -/
def furthest : Failure → Nat
  | mk _ _ offset _ children => furthestOf offset children

/-- The greatest offset in several trees of failures, at least a given one. -/
def furthestOf (least : Nat) : List Failure → Nat
  | [] => least
  | f :: fs => max (furthest f) (furthestOf least fs)
end

mutual
/-- The lines that show a failure and those below it, indented by their depth. -/
def lines (indent : String) : Failure → String
  | mk rule cause _ _ children =>
      indent ++ "rule(" ++ rule ++ ") - " ++ cause.message ++ "\n"
        ++ String.join (cause.notes.map fun note => indent ++ "  | " ++ note ++ "\n")
        ++ linesAll (indent ++ "  ") children

/-- The lines of several failures. -/
def linesAll (indent : String) : List Failure → String
  | [] => ""
  | f :: fs => lines indent f ++ linesAll indent fs
end

/-- The failure in words. -/
def message (f : Failure) : String :=
  "parse failed\n" ++ lines "  " f

end Failure
end GrammarKit
