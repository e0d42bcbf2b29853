/-
Module: GrammarKit.Spelling.RegexBody
Purpose: How regular expressions are written in grammars: blanks are free, and `\_` is a space.
Main exports: escapeRegexBody, regexBody
-/
import GrammarKit.Unicode.Category

namespace GrammarKit.Spelling

/-- How one character of a pattern is written. -/
def regexBodyChar (c : Char) : List Char :=
  if c = ' ' then ['\\', '_']
  else if c = '\t' then ['\\', 't']
  else if c = '\n' then ['\\', 'n']
  else if c = '\r' then ['\\', 'r']
  else [c]

/-- A pattern as it is written between the braces of a regular expression. -/
def escapeRegexBody (pattern : String) : String :=
  String.ofList (pattern.toList.flatMap regexBodyChar)

/-- Replace each escaped underscore by a space and keep all other escapes. -/
def unescapeSpaces : List Char → List Char
  | [] => []
  | '\\' :: '_' :: cs => ' ' :: unescapeSpaces cs
  | '\\' :: c :: cs => '\\' :: c :: unescapeSpaces cs
  | c :: cs => c :: unescapeSpaces cs

/-- The pattern that a written body stands for: blanks are dropped first, then escaped underscores become
spaces. -/
def regexBody (written : List Char) : List Char :=
  unescapeSpaces (written.filter fun c => !Unicode.isBlank c)

end GrammarKit.Spelling
