/-
Module: GrammarKit.Text.Quoted
Purpose: Texts in double quotes, as tree displays, notes and messages show them: every character that
  cannot be seen or that would attach to its neighbour is written as an escape.
Main exports: quoted
-/
import GrammarKit.Unicode.Category

namespace GrammarKit

/-- A number in hexadecimal, lower case, without leading zeros. -/
def hexadecimal (n : Nat) : List Char :=
  Nat.toDigits 16 n

/-- How one character is shown inside double quotes. -/
def quotedChar (c : Char) : List Char :=
  if c = '\x00' then ['\\', '0']
  else if c = '\t' then ['\\', 't']
  else if c = '\r' then ['\\', 'r']
  else if c = '\n' then ['\\', 'n']
  else if c = '"' || c = '\\' then ['\\', c]
  else if Unicode.extendsGrapheme c || !Unicode.isPrintable c then
    ['\\', 'u', '\x7b'] ++ hexadecimal c.toNat ++ ['\x7d']
  else [c]

/-- A text in double quotes with escapes. -/
def quotedChars (cs : List Char) : String :=
  String.ofList ('"' :: cs.flatMap quotedChar ++ ['"'])

/-- A text in double quotes with escapes. -/
def quoted (s : String) : String :=
  quotedChars s.toList

end GrammarKit
