/-
Module: GrammarKit.Program.Padding
Purpose: The padding that a grammar puts around its terminals, and the pattern that a terminal becomes.
Main exports: Padding, Padding.ofTerm, terminalPattern, terminal
-/
import GrammarKit.Error
import GrammarKit.Program

namespace GrammarKit

/-- The padding around terminals: a pattern with a place `()` for the terminal, and the terminals that are
exempt from it. -/
structure Padding where
  pattern : String
  exempt : List Term
deriving Inhabited, DecidableEq

/-- Replace the first empty group of a pattern, if it has one. -/
def replaceEmptyGroup? (replacement : List Char) : List Char → Option (List Char)
  | [] => none
  | [_] => none
  | a :: b :: cs =>
      if a = '(' && b = ')' then some (replacement ++ cs)
      else (replaceEmptyGroup? replacement (b :: cs)).map (a :: ·)

namespace Padding

/-- Refuse a term as padding. -/
def refuse (t : Term) (why : String) : Violation :=
  { kind := .invalidWrapRE, message := paddingRule ++ " " ++ why ++ ": " ++ t.spell }

/-- Whether a term may be exempt from padding. -/
def isTerminal : Term → Bool
  | .literal _ => true
  | .regex _ => true
  | _ => false

/-- The pattern at the end of the term of the padding rule, and the exempt terms before it. -/
def parts (t : Term) : Except Violation (Term × List Term) :=
  match t with
  | .regex _ => .ok (t, [])
  | .choice ts =>
      match ts.getLast? with
      | some last => .ok (last, ts.dropLast)
      | none => .error (refuse t "is empty")
  | _ => .error (refuse t "must be a regex or a choice ending in one")

/-- The padding that the term of the padding rule stands for. -/
def ofTerm (t : Term) : Except Violation Padding := do
  let (last, exempt) ← parts t
  match last with
  | .regex pattern =>
      if (replaceEmptyGroup? [] pattern.toList).isNone then
        .error (refuse t "has no () placeholder")
      else if !exempt.all isTerminal then
        .error (refuse t "may only exempt literals and regexes")
      else .ok ⟨pattern, exempt⟩
  | _ => .error (refuse t "must end in a regex")

/-- Put padding around the pattern of a terminal. -/
def wrap (padding : Padding) (t : Term) (inner : String) : String :=
  if padding.exempt.contains t then inner
  else
    let group := ("(?:" ++ inner ++ ")").toList
    match replaceEmptyGroup? group padding.pattern.toList with
    | some wrapped => String.ofList wrapped
    | none => padding.pattern

/-- The padding in force inside a grammar: its own, or else the one around it. -/
def ofGrammar (g : Grammar) (outer : Option Padding) : Except Error (Option Padding) :=
  match g.get? paddingRule with
  | none => .ok outer
  | some t =>
      match ofTerm t with
      | .ok padding => .ok (some padding)
      | .error violation => .error (.grammar [violation])

end Padding

/-- The pattern of a literal or a regular expression as a group of its own. -/
def groupedPattern : Term → String
  | .literal text => "(" ++ Regex.escape text ++ ")"
  | .regex pattern => "(" ++ pattern ++ ")"
  | _ => ""

/-- The pattern that is matched for a terminal: at the start of the input, where `^` and `$` match at line
breaks. -/
def terminalPattern (t : Term) (padding : Option Padding) : String :=
  let inner := groupedPattern t
  "(?m)\\A" ++ (match padding with
    | some padding => padding.wrap t inner
    | none => inner)

/-- The terminal for a literal or a regular expression.  Only an empty literal is known to match without
input. -/
def terminal (t : Term) (padding : Option Padding) : Except Error Terminal :=
  let pattern := terminalPattern t padding
  match Regex.compile pattern with
  | .ok regex => .ok ⟨regex, t.spell, t == .literal ""⟩
  | .error error =>
      .error (.grammar [
        { kind := .invalidRegex, message := t.spell ++ ": " ++ error.report pattern }])

end GrammarKit
