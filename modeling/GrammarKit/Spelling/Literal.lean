/-
Module: GrammarKit.Spelling.Literal
Purpose: How texts are written as literals in grammars, and what written literals stand for.
Main exports: quoteLiteral, unescape, LiteralError
-/
import GrammarKit.Text.Quoted
import GrammarKit.Regex.Reader

namespace GrammarKit.Spelling

/-! ### Writing -/

/-- A number below 256 as two hexadecimal digits. -/
def twoHexDigits (n : Nat) : List Char :=
  [Nat.digitChar (n / 16), Nat.digitChar (n % 16)]

/-- How one character is written inside a literal. -/
def literalChar (c : Char) : List Char :=
  if c = '\\' then ['\\', '\\']
  else if c = '"' then ['\\', '"']
  else if c = '\n' then ['\\', 'n']
  else if c = '\r' then ['\\', 'r']
  else if c = '\t' then ['\\', 't']
  else if c.toNat < 0x20 || c = '\x7f' then ['\\', 'x'] ++ twoHexDigits c.toNat
  else [c]

/-- A text as a literal in double quotes. -/
def quoteLiteral (text : String) : String :=
  String.ofList ('"' :: text.toList.flatMap literalChar ++ ['"'])

/-! ### Reading -/

/-- What is wrong with a written literal. -/
inductive LiteralError where
  | empty
  | unterminated
  | trailingBackslash
  | badCode (digits : String)
  | unknownEscape (c : Char)
deriving Repr, Inhabited, DecidableEq

/-- The complaint in words. -/
def LiteralError.message : LiteralError → String
  | .empty => "is empty"
  | .unterminated => "is not terminated"
  | .trailingBackslash => "ends in a backslash"
  | .badCode digits => "has a bad escape code " ++ quoted digits
  | .unknownEscape c => "has an unrecognized escape \\" ++ String.singleton c

/-- The value of a digit in a base of at most sixteen. -/
def digitValue? (base : Nat) (c : Char) : Option Nat :=
  (Regex.hexValue? c).filter (· < base)

/-- The value of one or more digits. -/
def digitsValue? (base : Nat) : List Char → Option Nat
  | [] => none
  | cs => cs.foldlM (fun value c => (digitValue? base c).map (base * value + ·)) 0

/-- The value of a number, which may have a plus sign in front. -/
def numberValue? (base : Nat) : List Char → Option Nat
  | '+' :: cs => digitsValue? base cs
  | cs => digitsValue? base cs

/-- The character whose code is written in a given number of characters. -/
def codeChar (count base : Nat) (cs : List Char) : Except LiteralError Char :=
  match (numberValue? base cs).bind Regex.scalar? with
  | some c => if cs.length = count then .ok c else .error (.badCode (String.ofList cs))
  | none => .error (.badCode (String.ofList cs))

/-- The character that a one-letter escape stands for. -/
def simpleEscape? : Char → Option Char
  | 'a' => some '\x07'
  | 'b' => some '\x08'
  | 'f' => some '\x0c'
  | 'n' => some '\n'
  | 'r' => some '\r'
  | 't' => some '\t'
  | 'v' => some '\x0b'
  | '\\' => some '\\'
  | '\'' => some '\''
  | '"' => some '"'
  | _ => none

/-- How many characters of code follow the letter of a numeric escape. -/
def codeLength? : Char → Option Nat
  | 'x' => some 2
  | 'u' => some 4
  | 'U' => some 8
  | _ => none

/-- The text that a body with escapes stands for.  Fuel bounds the number of characters. -/
def unescapeBody : Nat → List Char → Except LiteralError (List Char)
  | 0, _ => .ok []
  | _ + 1, [] => .ok []
  | fuel + 1, c :: cs =>
      if c ≠ '\\' then (unescapeBody fuel cs).map (c :: ·)
      else match cs with
      | [] => .error .trailingBackslash
      | e :: cs =>
          match codeLength? e with
          | some n => do
              let c ← codeChar n 16 (cs.take n)
              (unescapeBody fuel (cs.drop n)).map (c :: ·)
          | none =>
              if '0' ≤ e && e ≤ '7' then do
                let c ← codeChar 3 8 (e :: cs.take 2)
                (unescapeBody fuel (cs.drop 2)).map (c :: ·)
              else
                match simpleEscape? e with
                | some c => (unescapeBody fuel cs).map (c :: ·)
                | none => .error (.unknownEscape e)

/-- Each pair of backquotes becomes one. -/
def halveBackquotes : List Char → List Char
  | '\x60' :: '\x60' :: cs => '\x60' :: halveBackquotes cs
  | c :: cs => c :: halveBackquotes cs
  | [] => []

/-- The text between the quotes of a literal: what follows its first character, without the same
character at the end. -/
def literalBody : List Char → Except LiteralError (Char × List Char)
  | [] => .error .empty
  | quote :: rest =>
      if rest.getLast? = some quote then .ok (quote, rest.dropLast) else .error .unterminated

/-- The text that a written literal stands for.  In backquotes only a doubled backquote is special. -/
def unescape (literal : List Char) : Except LiteralError (List Char) := do
  let (quote, body) ← literalBody literal
  if quote = '\x60' then .ok (halveBackquotes body)
  else unescapeBody (body.length + 1) body

end GrammarKit.Spelling
