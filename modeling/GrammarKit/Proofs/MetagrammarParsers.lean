/-
Module: GrammarKit.Proofs.MetagrammarParsers
Purpose: The grammar of grammars as a compiled grammar.  Its stacks can be eliminated, all its terminals take
  input, it has no cutpoints and its rules are there: so it compiles or has violations, and a parse by it
  gives a tree, fails without having committed to anything, or leaves input over.
Main exports: Metagrammar.flat, Metagrammar.compile_error, Metagrammar.parse_error
-/
import GrammarKit.Metagrammar.Reader
import GrammarKit.Proofs.Adequacy
import GrammarKit.Proofs.CompilerErrors
import GrammarKit.Proofs.MetagrammarTerminals
import GrammarKit.Proofs.UncutGrammars

namespace GrammarKit

/-- An error of an input that does not match and commits to nothing, or of which only a part matches. -/
def Error.OfInput (e : Error) : Prop :=
  (∃ f, e = .parse f) ∨ ∃ rest tree, e = .unconsumedInput rest tree

/-- A parse by a grammar without cutpoints whose terminals all take input gives a tree, or an error of the input. -/
theorem Parsers.parse_fails {g : Grammar} {p : Parsers} (compiled : g.compile {} = .ok p) (uncut : p.grammar.Uncut)
    (tokenized : p.flat.tokenized = true) {rule : String} (defined : rule ∈ p.flat.names)
    (noPadding : rule ≠ paddingRule) (input : Slice) : Except.FailsOnly Error.OfInput (p.parse rule input) := by
  obtain ⟨slot, found⟩ := exists_slot compiled defined noPadding
  have shows := shows_parsePartial found input
  have mild := (uncut_compile compiled uncut).judge_ne_fatal (p.program.fuelFor input) slot .unbound input
  have ends := parsePartial_ne_endless compiled rfl tokenized rule input
  have partially : Except.FailsOnly Error.OfInput (p.parsePartial rule input) := by
    generalize p.program.judge _ slot .unbound input = verdict at shows mild
    generalize p.parsePartial rule input = result at shows ends ⊢
    cases shows with
    | matched => exact .ok _
    | failed => exact .error (.inl ⟨_, rfl⟩)
    | fatal => exact absurd rfl mild
    | exhausted => exact absurd rfl ends
  apply partially.bind
  rintro ⟨tree, rest⟩ -
  rw [requireAll]
  split
  · exact .ok _
  · exact .error (.inr ⟨rest, tree, rfl⟩)

namespace Metagrammar

/-! ### Without stacks -/

/-- The outermost layer of terms: stacks. -/
def stackLayer : Term :=
  .list (.rule "term@1") (.capture "op" (.literal ">")) {}

/-- The second layer of terms: choices. -/
def choiceLayer : Term :=
  .list (.rule "term@2") (.capture "op" (.literal "|")) {}

/-- The third layer of terms: sequences, perhaps with local rules. -/
def sequenceLayer : Term :=
  .seq [
    .many1 (.rule "term@3"),
    .optional (.seq [.literal "\x7b", .rule "grammar", .literal "\x7d"])]

/-- The innermost layer of terms: atoms with what is written behind them. -/
def atomLayer : Term :=
  .seq [.rule "named", .many (.rule "quant")]

/-- The grammar of grammars without its stack: the layers of terms are rules of their own. -/
def flat : Grammar := ⟨[
  (paddingRule, .regex "\\s*()\\s*"),
  ("COMMENT", .regex comment),
  ("IDENT", .regex identifier),
  ("INT", .regex "\\d+"),
  ("RE", .regex regex),
  ("REF", reference),
  ("STR", .regex string),
  ("atom", atom),
  ("grammar", grammar),
  ("named", named),
  ("prod", production),
  ("quant", quant),
  ("stmt", statement),
  ("term", stackLayer),
  ("term@1", choiceLayer),
  ("term@2", sequenceLayer),
  ("term@3", atomLayer)]⟩

theorem eliminateStacks_eq : metagrammar.eliminateStacks = .ok flat := by
  have eliminated : metagrammar.eliminateStacks.toOption = some flat := by decide +kernel
  cases result : metagrammar.eliminateStacks with
  | error e =>
    rw [result] at eliminated
    cases eliminated
  | ok g =>
    rw [result] at eliminated
    exact congrArg Except.ok (Option.some.inj eliminated)

/-- The compilation of the grammar of grammars succeeds, or reports violations. -/
theorem compile_error : Except.FailsOnly Error.Reports metaparsers := by
  have regular : metagrammar.Regular := by decide +kernel
  rw [metaparsers]
  exact Grammar.compile_fails regular eliminateStacks_eq

/-- All terminals of the grammar of grammars take input. -/
theorem flat_tokenized : flat.tokenized = true := by
  have padded : Padding.ofGrammar flat none = .ok (some padding) := rfl
  have plain := consumes_plain
  simp only [List.forall_mem_cons, List.not_mem_nil, false_imp_iff, implies_true, and_true] at plain
  rw [Grammar.tokenized, padded]
  simp [flat, Term.tokenizedTable, Term.tokenizedEntries, Term.tokenized, Term.tokenizedAll, Term.isToken, atom,
    grammar, named, production, quant, statement, reference, stackLayer, choiceLayer, sequenceLayer, atomLayer,
    Term.many, Term.many1, Term.optional, consumes_literal, consumes_number, consumes_identifier, consumes_regex, plain]

/-- What the parsers of the grammar of grammars keep. -/
theorem parsers_eq {p : Parsers} (compiled : metaparsers = .ok p) : p.grammar = metagrammar ∧ p.flat = flat := by
  rw [metaparsers] at compiled
  exact Grammar.compile_keeps eliminateStacks_eq compiled

/-- A parse by the grammar of grammars gives a tree, or an error of the input. -/
theorem parse_error {p : Parsers} (compiled : metaparsers = .ok p) (input : Slice) :
    Except.FailsOnly Error.OfInput (p.parse grammarRule input) := by
  obtain ⟨whole, alone⟩ := parsers_eq compiled
  rw [metaparsers] at compiled
  have uncut : p.grammar.Uncut := by
    rw [whole]
    decide +kernel
  have tokenized : p.flat.tokenized = true := alone ▸ flat_tokenized
  have defined : grammarRule ∈ p.flat.names := by
    rw [alone]
    decide
  exact p.parse_fails compiled uncut tokenized defined (by decide) input

end Metagrammar
end GrammarKit
