/-
Module: GrammarKit.Regex
Purpose: Regular expressions as the rest of the library uses them: compile a pattern, match it at the
  start of a slice, and take the groups of the match as slices.
Main exports: Regex, Regex.compile, Regex.match?, Regex.Match, Regex.escape
-/
import GrammarKit.Regex.Machine
import GrammarKit.Regex.Reader
import GrammarKit.Text.Slice

namespace GrammarKit

/-- A regular expression that is ready to match. -/
structure Regex where
  machine : Regex.Machine
deriving Repr, Inhabited, DecidableEq

namespace Regex

/-- Compile the text of a pattern. -/
def compile (text : String) : Except PatternError Regex := do
  let pattern ← Pattern.read text.toList
  match Machine.ofPattern? pattern with
  | some machine => .ok ⟨machine⟩
  | none => .error .tooLarge

/-- The report that a text is no pattern.  A pattern that is too large can be read, so that the report does not
show where reading failed. -/
def PatternError.report (text : String) : PatternError → String
  | .tooLarge => "Compiled regex exceeds size limit of " ++ toString Extent.limit ++ " bytes."
  | error => "regex parse error:\n    " ++ text ++ "\nerror: " ++ error.reason

/-- A match at the start of a slice. -/
structure Match where
  /-- All that was matched. -/
  whole : Slice
  /-- What each group matched last, for the groups in order. -/
  groups : List (Option Slice)
  /-- What follows the match. -/
  rest : Slice
deriving Repr, Inhabited, DecidableEq

/-- The part of a match that counts: the last group that took part, or else the whole match. -/
def Match.output (m : Match) : Slice :=
  m.groups.foldl (fun output group => group.getD output) m.whole

/-- The slices that pairs of slots stand for. -/
def groupSlices (s : Slice) : Machine.Slots → List (Option Slice)
  | first :: last :: slots =>
      (match first, last with
        | some i, some j => some (s.extract i j)
        | _, _ => none) :: groupSlices s slots
  | _ => []

/-- Match at the start of a slice, looking at nothing before it. -/
def match? (re : Regex) (s : Slice) : Option Match :=
  (re.machine.run s.chars).map fun (length, slots) =>
    ⟨s.takeChars length, groupSlices s (slots.drop 2), s.dropChars length⟩

/-- Characters with a meaning of their own in patterns. -/
def isMeta (c : Char) : Bool :=
  ['\\', '.', '+', '*', '?', '(', ')', '|', '[', ']', '\x7b', '\x7d', '^', '$', '#', '&', '-', '~'].contains c

/-- The pattern that matches a text literally. -/
def escape (text : String) : String :=
  String.ofList (text.toList.flatMap fun c => if isMeta c then ['\\', c] else [c])

end Regex
end GrammarKit
