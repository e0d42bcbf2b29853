/-
Module: GrammarKit.Parsers
Purpose: Compiled grammars and what can be done with them: parse, write trees back out, and convert them
  to generic trees and back.
Main exports: CompileOptions, Parsers, Grammar.compile, Parsers.parse, Parsers.parsePartial
-/
import GrammarKit.Generic.ToTree
import GrammarKit.Grammar.Cutpoint
import GrammarKit.Parse.Run
import GrammarKit.Program.Compile
import GrammarKit.Validation.Cycles
import GrammarKit.Validation.Terms

namespace GrammarKit

/-- How a grammar is compiled. -/
structure CompileOptions where
  /-- Refuse grammars with violations. -/
  validate : Bool := true
  /-- Put cutpoints around literals that occur once. -/
  autoCutpoints : Bool := false
deriving Repr, Inhabited, DecidableEq

/-- A compiled grammar: the grammar itself, the same without stacks, and the program. -/
structure Parsers where
  grammar : Grammar
  flat : Grammar
  program : Program
deriving Inhabited

/-- Refuse violations, if there are any and they are asked for. -/
def refuseViolations (wanted : Bool) (violations : List Violation) : Except Error Unit :=
  if wanted && !violations.isEmpty then .error (.grammar violations) else .ok ()

namespace Grammar

/-- Compile a grammar.  Violations in terms are reported before anything else is tried, circles of rules
after the program has been made. -/
def compile (g : Grammar) (options : CompileOptions) : Except Error Parsers := do
  let g := if options.autoCutpoints then g.withCutpoints else g
  refuseViolations options.validate g.termViolations
  let flat ← Generic.lift g.eliminateStacks
  let program ← Program.ofGrammar flat
  refuseViolations options.validate program.cycleViolations
  .ok ⟨g, flat, program⟩

/-- Check a grammar: it is valid if it compiles. -/
def validate (g : Grammar) : Except Error Unit := do
  let _ ← g.compile {}
  .ok ()

end Grammar

namespace Parsers

/-- The rules that a parse can start with, in order. -/
def ruleNames (p : Parsers) : List String :=
  p.flat.names.filter (· ≠ paddingRule)

/-- The term of a rule that a parse can start with. -/
def rule? (p : Parsers) (name : String) : Option Term :=
  if name = paddingRule then none else p.flat.get? name

/-- The result of a run: a failure that belongs to a generation of cutpoints is fatal. -/
def ofOutcome {α : Type} : Outcome α → Except Error α
  | .matched value => .ok value
  | .failed f => .error (if f.generation.isSome then .fatal f else .parse f)
  | .exhausted => .error .endless

/-- Match a rule at the start of the input, and count what it took. -/
def runPartial (p : Parsers) (rule : String) (input : Slice) : Except Error (Tree × Slice) × Tally :=
  match p.program.rules.get? rule with
  | none => (.error (.unknownRule rule), {})
  | some slot =>
      let (outcome, tally) := p.program.start slot rule input
      (ofOutcome outcome, tally)

/-- Match a rule at the start of the input.  The result is the tree and what is left of the input. -/
def parsePartial (p : Parsers) (rule : String) (input : Slice) : Except Error (Tree × Slice) :=
  (p.runPartial rule input).1

/-- A match that must have taken all input. -/
def requireAll : Tree × Slice → Except Error Tree
  | (tree, rest) => if rest.isEmpty then .ok tree else .error (.unconsumedInput rest tree)

/-- Match a rule against all of the input, and count what it took. -/
def run (p : Parsers) (rule : String) (input : Slice) : Except Error Tree × Tally :=
  let (result, tally) := p.runPartial rule input
  (result.bind requireAll, tally)

/-- Match a rule against all of the input. -/
def parse (p : Parsers) (rule : String) (input : Slice) : Except Error Tree :=
  (p.run rule input).1

/-- The text of a tree. -/
def unparse (p : Parsers) (rule : String) (tree : Tree) : Except Error String :=
  p.flat.unparse rule tree

/-- The generic tree of a tree. -/
def toGeneric (p : Parsers) (rule : String) (tree : Tree) : Except Error Generic.Branch :=
  p.flat.flatToGeneric rule tree

/-- The tree of a generic tree. -/
def ofGeneric (p : Parsers) (b : Generic.Branch) : Except Error Tree :=
  p.flat.flatOfGeneric b

end Parsers
end GrammarKit
