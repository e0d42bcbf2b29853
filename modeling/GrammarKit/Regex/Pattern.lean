/-
Module: GrammarKit.Regex.Pattern
Purpose: Regular expressions after reading.  All flags are resolved, so a pattern has one meaning by
  itself.  Patterns are put together in a normal form: a sequence holds no sequence, no empty part and no
  two literals side by side; a choice holds no choice, a choice between sets is a set, and what all
  alternatives begin with stands before the choice.
Main exports: Assertion, Pattern, Pattern.ofSet, Pattern.sequence, Pattern.choice, Pattern.repeated
-/
import GrammarKit.Unicode.Property

namespace GrammarKit.Regex

open Unicode (CharSet)

/-! ### Assertions -/

/-- What is asked of a place with regard to words. -/
inductive BoundaryTest where
  /-- It is between a word character and one that is none. -/
  | edge
  | noEdge
  | start
  | finish
  /-- No word character stands before it. -/
  | startHalf
  /-- No word character stands after it. -/
  | finishHalf
deriving Repr, Inhabited, DecidableEq

/-- Conditions on the place between two characters. -/
inductive Assertion where
  | textStart
  | textEnd
  /-- Just after a line break or at the start of the text; with `crlf`, line breaks are carriage return,
  line feed and the pair of both. -/
  | lineStart (crlf : Bool)
  /-- Just before a line break or at the end of the text. -/
  | lineEnd (crlf : Bool)
  /-- A boundary of words, where `ascii` restricts word characters to those below 128. -/
  | boundary (test : BoundaryTest) (ascii : Bool)
deriving Repr, Inhabited, DecidableEq

/-- Word characters below 128. -/
def asciiWords : CharSet :=
  .ofRanges [('0', '9'), ('A', 'Z'), ('_', '_'), ('a', 'z')]

/-- Whether a test holds between two places, given whether a word character stands on either side. -/
def BoundaryTest.holds (test : BoundaryTest) (before after : Bool) : Bool :=
  match test with
  | edge => before != after
  | noEdge => before == after
  | start => !before && after
  | finish => before && !after
  | startHalf => !before
  | finishHalf => !after

/-- Whether an assertion holds between the characters `before` and `after`, where none stands for the end
of the text. -/
def Assertion.holds (a : Assertion) (before after : Option Char) : Bool :=
  match a with
  | .textStart => before.isNone
  | .textEnd => after.isNone
  | .lineStart false => before.isNone || before == some '\n'
  | .lineStart true =>
      before.isNone || before == some '\n' || (before == some '\r' && after != some '\n')
  | .lineEnd false => after.isNone || after == some '\n'
  | .lineEnd true =>
      after.isNone || after == some '\r' || (after == some '\n' && before != some '\r')
  | .boundary test ascii =>
      let words := if ascii then asciiWords else Unicode.words
      test.holds (before.any words.mem) (after.any words.mem)

/-! ### Patterns -/

/-- Regular expressions.  Groups are numbered from one in the order of their opening brackets. -/
inductive Pattern where
  | empty
  /-- A text that stands for itself and is not empty. -/
  | literal (text : List Char)
  /-- One character of a set. -/
  | set (s : CharSet)
  | assertion (a : Assertion)
  | group (index : Nat) (inner : Pattern)
  | seq (first rest : Pattern)
  | alt (first rest : Pattern)
  /-- At least `min` and at most `max` times; a greedy repetition prefers more. -/
  | repetition (inner : Pattern) (min : Nat) (max : Option Nat) (greedy : Bool)
deriving Repr, Inhabited, DecidableEq

namespace Pattern

/-- The length of a shortest match, as far as assertions are not concerned; nothing if a part that every
match needs, or an alternative, matches no text at all. -/
def shortest : Pattern → Option Nat
  | empty => some 0
  | literal text => some text.length
  | set s => if s.isEmpty then none else some 1
  | assertion _ => some 0
  | group _ p => p.shortest
  | seq p q => do return (← p.shortest) + (← q.shortest)
  | alt p q => do return Nat.min (← p.shortest) (← q.shortest)
  | repetition p min _ _ => p.shortest.map (· * min)

/-- Whether every match of a pattern takes at least one character. -/
def consumes (p : Pattern) : Bool :=
  p.shortest.any (· != 0)

/-- Whether every match of a pattern takes no character. -/
def isEmptyWidth : Pattern → Bool
  | empty => true
  | literal _ => false
  | set _ => false
  | assertion _ => true
  | group _ p => p.isEmptyWidth
  | seq p q => p.isEmptyWidth && q.isEmptyWidth
  | alt p q => p.isEmptyWidth && q.isEmptyWidth
  | repetition p _ bound _ => bound == some 0 || p.isEmptyWidth

/-- The number of constructors. -/
def size : Pattern → Nat
  | group _ p => p.size + 1
  | seq p q => p.size + q.size + 1
  | alt p q => p.size + q.size + 1
  | repetition p _ _ _ => p.size + 1
  | _ => 1

/-- The largest number of a group. -/
def lastGroup : Pattern → Nat
  | group i p => max i p.lastGroup
  | seq p q => max p.lastGroup q.lastGroup
  | alt p q => max p.lastGroup q.lastGroup
  | repetition p _ _ _ => p.lastGroup
  | _ => 0

/-- Whether an assertion is sure to be made where a match begins. -/
def beginsWith (a : Assertion) : Pattern → Bool
  | assertion b => b == a
  | group _ p => p.beginsWith a
  | seq p q => p.beginsWith a || (p.isEmptyWidth && q.beginsWith a)
  | alt p q => p.beginsWith a && q.beginsWith a
  | repetition p min _ _ => min != 0 && p.beginsWith a
  | _ => false

/-- Whether an assertion is sure to be made where a match ends. -/
def endsWith (a : Assertion) : Pattern → Bool
  | assertion b => b == a
  | group _ p => p.endsWith a
  | seq p q => q.endsWith a || (q.isEmptyWidth && p.endsWith a)
  | alt p q => p.endsWith a && q.endsWith a
  | repetition p min _ _ => min != 0 && p.endsWith a
  | _ => false

/-! ### Putting patterns together -/

/-- One character of a set; of a set with one member, that character. -/
def ofSet (s : CharSet) : Pattern :=
  match s.only? with
  | some c => literal [c]
  | none => set s

/-- The parts of a sequence. -/
def elements : Pattern → List Pattern
  | empty => []
  | seq p q => p :: q.elements
  | p => [p]

/-- Put one part in front of a sequence. -/
def prepend : Pattern → Pattern → Pattern
  | literal text, literal more => literal (text ++ more)
  | literal text, seq (literal more) rest => seq (literal (text ++ more)) rest
  | p, empty => p
  | p, rest => seq p rest

/-- Patterns one after the other. -/
def sequence (ps : List Pattern) : Pattern :=
  (ps.flatMap elements).foldr prepend empty

/-- The alternatives of a choice. -/
def alternatives : Pattern → List Pattern
  | alt p q => p :: q.alternatives
  | p => [p]

/-- Alternatives in the order of preference, as they are. -/
def ofAlternatives : List Pattern → Pattern
  | [] => set .empty
  | [p] => p
  | p :: ps => alt p (ofAlternatives ps)

/-- The character that a pattern stands for, if it stands for one. -/
def char? : Pattern → Option Char
  | literal [c] => some c
  | _ => none

/-- The set of which a pattern matches one character. -/
def set? : Pattern → Option CharSet
  | set s => some s
  | _ => none

/-- What two lists begin with in common. -/
def commonStart : List Pattern → List Pattern → List Pattern
  | p :: ps, q :: qs => if p = q then p :: commonStart ps qs else []
  | _, _ => []

/-- The parts with which all of several sequences begin; none if one of the patterns is no sequence. -/
def sharedStart : List Pattern → List Pattern
  | [] => []
  | p :: ps =>
      if (p :: ps).all (·.elements.length ≥ 2) then
        ps.foldl (fun start q => commonStart start q.elements) p.elements
      else []

/-- A choice between patterns.  Fuel bounds how often a common beginning is taken out, each time from
smaller alternatives. -/
def choiceWithin : Nat → List Pattern → Pattern
  | 0, ps => ofAlternatives ps
  | fuel + 1, ps =>
      match ps.flatMap alternatives with
      | [] => set .empty
      | [p] => p
      | ps =>
          match ps.mapM char?, ps.mapM set? with
          | some cs, _ => ofSet (cs.foldl (fun s c => s.insert c.toNat) .empty)
          | _, some sets => ofSet (sets.foldl CharSet.union .empty)
          | none, none =>
              let start := sharedStart ps
              if start.isEmpty then ofAlternatives ps
              else
                sequence (start ++
                  [choiceWithin fuel (ps.map fun p => sequence (p.elements.drop start.length))])

/-- A choice between patterns, the first one preferred. -/
def choice (ps : List Pattern) : Pattern :=
  choiceWithin (ps.foldl (fun n p => n + p.size) 1) ps

/-- Repeat a pattern.  One that takes no character matches the second time as it did the first time, so it
is repeated at most once. -/
def repeated (p : Pattern) (min : Nat) (max : Option Nat) (greedy : Bool) : Pattern :=
  let (min, max) :=
    if p.isEmptyWidth then (Nat.min min 1, some (Nat.min (max.getD 1) 1)) else (min, max)
  if max = some 0 then empty
  else if min = 1 && max = some 1 then p
  else repetition p min max greedy

end Pattern
end GrammarKit.Regex
