/-
Module: GrammarKit.Parse.Run
Purpose: Running a program.  Parsers call each other through the program, so the recursion is bounded by
  fuel.  The bound for a whole parse is one that only endless recursion meets: what a parser does depends
  on the place, on the texts that names are bound to, and on whether a generation is active, and while
  recursion stays at one place the latter two can change only so often.
Main exports: Program.recognizer, Program.bindingCount, Program.fuelFor, Program.start
-/
import GrammarKit.Parse.Recognizer
import GrammarKit.Program

namespace GrammarKit

/-- What an operator does, given what the parsers do that it refers to. -/
def Operator.recognizer (self : ParserId → Recognizer) (label : Option String) :
    Operator → Recognizer
  | .pending name => fun rule c input t =>
      (.failed (.mk rule (.uncompiled name) input.start c.generation []), t)
  | .terminal t => Recognizer.terminal t.regex t.expected
  | .call target => self target
  | .cut inner => self inner
  | .seq items => Recognizer.sequence label (items.map fun item => ⟨item.bind, item.cut, self item.parser⟩)
  | .choice alternatives => Recognizer.choice label (alternatives.map self)
  | .list element separator style cutSeparator =>
      Recognizer.list label ⟨self element, self separator, style, cutSeparator⟩
  | .quant term min max => Recognizer.repetition label (self term) min max
  | .backref name default => Recognizer.backref name (default.map self)

namespace Program

/-- What the parser with a given index does, in a recursion of at most the given depth.  A parser with a
label works for the rule or capture of that name. -/
def recognizer (p : Program) : Nat → ParserId → Recognizer
  | 0, _ => fun _ _ _ t => (.exhausted, t)
  | fuel + 1, id => fun rule c input t =>
      match p.parsers[id]? with
      | none => (.exhausted, t)
      | some parser =>
          parser.operator.recognizer (recognizer p fuel) parser.label
            (parser.label.getD rule) c input t.attempt

/-- The number of items of sequences that bind a name, which is at least the number of names that a parse
can bind. -/
def bindingCount (p : Program) : Nat :=
  p.parsers.foldl (fun count parser =>
    match parser.operator with
    | .seq items => count + items.countP fun item => item.bind.isSome
    | _ => count) 0

/-- A depth that suffices for an input.  While no input is taken, whatever gets bound is empty, so each name
changes its text at most once, and a generation, once active, stays so.  A parser that is active more often
than that at one place would find itself where it has been before. -/
def fuelFor (p : Program) (input : Slice) : Nat :=
  (p.parsers.size + 1) * (input.chars.length + 1) * (p.bindingCount + 2)

/-- Run the rule with a given slot from the start of the input. -/
def start (p : Program) (slot : ParserId) (rule : String) (input : Slice) :
    Outcome (Tree × Slice) × Tally :=
  p.recognizer (p.fuelFor input) slot rule {} input {}

end Program
end GrammarKit
