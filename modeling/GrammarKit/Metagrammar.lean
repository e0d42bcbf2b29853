/-
Module: GrammarKit.Metagrammar
Purpose: The grammar of grammars, as a grammar and as a text in its own language.  Reading the text gives
  the grammar again.
Main exports: metagrammar, metagrammarSource
-/
import GrammarKit.Term

namespace GrammarKit

/-- The rule of the grammar of grammars that whole grammars match. -/
def grammarRule : String := "grammar"

/-- The grammar of grammars in its own language. -/
def metagrammarSource : String := "
// Non-terminals
grammar -> stmt+;
stmt    -> COMMENT | prod;
prod    -> IDENT \"->\" term+ \";\";
term    -> @:op=\">\"
         > @:op=\"|\"
         > @+ (\"\x7b\" grammar \"\x7d\")?
         > named quant*;
named   -> (IDENT op=\"=\")? atom;
quant   -> op=/\x7b[?*+]\x7d
         | \"\x7b\" min=INT? \",\" max=INT? \"\x7d\"
         | op=/\x7b<:|:>?\x7d opt_leading=\",\"? named opt_trailing=\",\"?;
atom    -> IDENT | STR | RE | REF | \"(\" term \")\" | \"(\" \")\";

// Terminals
COMMENT -> /\x7b //.*$
            | (?s: /\\* (?: [^*] | \\*+[^*/] )* \\*+/ )
            \x7d;
IDENT   -> /\x7b@|[A-Za-z_\\.]\\w*\x7d;
INT     -> /\x7b\\d+\x7d;
STR     -> /\x7b \" (?: \\\\. | [^\\\\\"] )* \"
            | ' (?: \\\\. | [^\\\\'] )* '
            | ` (?: `` | [^`] )* `
            \x7d;
RE      -> /\x7b
             /\\\x7b
               ((?:
                 \\\\.
                 | \\\x7b (?: (?: \\d+(?:,\\d*)? | ,\\d+ ) \\\x7d )?
                 | \\[ (?: \\\\] | [^\\]] )+ ]
                 | [^\\\\\x7b\\\x7d]
               )*)
             \\\x7d
           \x7d;
REF     -> \"%\" IDENT (\"=\" default=STR)?;

// Special
.wrapRE -> /\x7b\\s*()\\s*\x7d;
"

namespace Metagrammar

/-- A grammar has at least one statement. -/
def grammar : Term :=
  .many1 (.rule "stmt")

/-- A statement is a comment or a rule. -/
def statement : Term :=
  .choice [.rule "COMMENT", .rule "prod"]

/-- A rule is a name and its term. -/
def production : Term :=
  .seq [.rule "IDENT", .literal "->", .many1 (.rule "term"), .literal ";"]

/-- A term: stacks, choices, sequences with local rules, and atoms with what is written behind them. -/
def term : Term :=
  .stack [
    .list (.rule "@") (.capture "op" (.literal ">")) {},
    .list (.rule "@") (.capture "op" (.literal "|")) {},
    .seq [
      .many1 (.rule "@"),
      .optional (.seq [.literal "\x7b", .rule "grammar", .literal "\x7d"])],
    .seq [.rule "named", .many (.rule "quant")]]

/-- An atom, which may be captured under a name. -/
def named : Term :=
  .seq [.optional (.seq [.rule "IDENT", .capture "op" (.literal "=")]), .rule "atom"]

/-- What makes a repetition or a list of a term. -/
def quant : Term :=
  .choice [
    .capture "op" (.regex "[?*+]"),
    .seq [
      .literal "\x7b",
      .optional (.capture "min" (.rule "INT")),
      .literal ",",
      .optional (.capture "max" (.rule "INT")),
      .literal "\x7d"],
    .seq [
      .capture "op" (.regex "<:|:>?"),
      .optional (.capture "opt_leading" (.literal ",")),
      .rule "named",
      .optional (.capture "opt_trailing" (.literal ","))]]

/-- Names, literals, regular expressions, back references and brackets. -/
def atom : Term :=
  .choice [
    .rule "IDENT",
    .rule "STR",
    .rule "RE",
    .rule "REF",
    .seq [.literal "(", .rule "term", .literal ")"],
    .seq [.literal "(", .literal ")"]]

/-- Comments to the end of the line and comments in brackets. -/
def comment : String :=
  "//.*$|(?s:/\\*(?:[^*]|\\*+[^*/])*\\*+/)"

/-- Names; the placeholder of stacks is one of them. -/
def identifier : String :=
  "@|[A-Za-z_\\.]\\w*"

/-- Literals in three kinds of quotes. -/
def string : String :=
  "\"(?:\\\\.|[^\\\\\"])*\"|'(?:\\\\.|[^\\\\'])*'|`(?:``|[^`])*`"

/-- Regular expressions in braces, which may hold counted repetitions and classes. -/
def regex : String :=
  "/\\\x7b((?:\\\\.|\\\x7b(?:(?:\\d+(?:,\\d*)?|,\\d+)\\\x7d)?|\\[(?:\\\\]|[^\\]])+]|[^\\\\\x7b\\\x7d])*)\\\x7d"

/-- A back reference, which may have a literal as its default. -/
def reference : Term :=
  .seq [
    .literal "%",
    .rule "IDENT",
    .optional (.seq [.literal "=", .capture "default" (.rule "STR")])]

end Metagrammar

/-- The grammar of grammars. -/
def metagrammar : Grammar :=
  .ofList [
    ("grammar", Metagrammar.grammar),
    ("stmt", Metagrammar.statement),
    ("prod", Metagrammar.production),
    ("term", Metagrammar.term),
    ("named", Metagrammar.named),
    ("quant", Metagrammar.quant),
    ("atom", Metagrammar.atom),
    ("COMMENT", .regex Metagrammar.comment),
    ("IDENT", .regex Metagrammar.identifier),
    ("INT", .regex "\\d+"),
    ("STR", .regex Metagrammar.string),
    ("RE", .regex Metagrammar.regex),
    ("REF", Metagrammar.reference),
    (paddingRule, .regex "\\s*()\\s*")]

end GrammarKit
