/-
Module: GrammarKit.Regex.Escape
Purpose: Escapes in patterns: characters given by their codes or by letters, classes of characters,
  assertions.
Main exports: Escaped, readEscape
-/
import GrammarKit.Regex.Flags
import GrammarKit.Regex.Property

namespace GrammarKit.Regex

open Unicode (CharSet)

/-- What an escape stands for. -/
inductive Escaped where
  | literal (c : Char)
  | set (s : CharSet)
  | assertion (a : Assertion)
deriving Repr, Inhabited, DecidableEq

/-! ### Characters by their codes -/

/-- The value of a hexadecimal digit. -/
def hexValue? (c : Char) : Option Nat :=
  if '0' ≤ c && c ≤ '9' then some (c.toNat - 48)
  else if 'a' ≤ c && c ≤ 'f' then some (c.toNat - 87)
  else if 'A' ≤ c && c ≤ 'F' then some (c.toNat - 55)
  else none

/-- The character with a given code, if there is one. -/
def scalar? (code : Nat) : Option Char :=
  if h : code.isValidChar then some (Char.ofNatAux code h) else none

/-- Exactly `n` hexadecimal digits. -/
def readHexDigits (flags : Flags) : Nat → Nat → List Char → Except PatternError (Nat × List Char)
  | 0, value, cs => .ok (value, cs)
  | _ + 1, _, [] => .error .escapeUnfinished
  | n + 1, value, c :: cs =>
      match hexValue? c with
      | some d => readHexDigits flags n (16 * value + d) (flags.skip cs)
      | none => .error .hexDigit

/-- The number that hexadecimal digits stand for. -/
def hexNumber (digits : List Char) : Except PatternError Nat :=
  if digits.isEmpty then .error .hexEmpty
  else
    match digits.mapM hexValue? with
    | some values => .ok (values.foldl (fun n d => 16 * n + d) 0)
    | none => .error .hexDigit

/-- A character given by its code: braces around any number of digits, or a fixed number of them.  Two
digits give a byte where classes do not cover all scripts, and a byte above 127 is no character. -/
def readHex (flags : Flags) (digits : Nat) (cs : List Char) :
    Except PatternError (Char × List Char) := do
  let (code, isByte, rest) ← match flags.skip cs with
    | '\x7b' :: rest =>
        match flags.readBraced (rest.length + 1) rest with
        | some (inside, rest) => (hexNumber inside).map (·, false, rest)
        | none => .error .escapeUnfinished
    | cs => (readHexDigits flags digits 0 cs).map fun (code, rest) => (code, digits == 2, rest)
  match scalar? code with
  | some c =>
      if isByte && !flags.unicode && code ≥ 0x80 then .error .notUnicode else .ok (c, rest)
  | none => .error .hexInvalid

/-! ### Classes -/

/-- A class given by a property, after `\p` or `\P`. -/
def readProperty (flags : Flags) (negated : Bool) (cs : List Char) :
    Except PatternError (CharSet × List Char) := do
  if !flags.unicode then .error .notUnicode
  let (found, rest) ← match flags.skip cs with
    | [] => .error .escapeUnfinished
    | '\x7b' :: rest =>
        match flags.readBraced (rest.length + 1) rest with
        | some (text, rest) => .ok (propertySet? text, rest)
        | none => .error .escapeUnfinished
    | c :: rest =>
        if c = '\\' then .error .propertyInvalid else .ok ((namedSet? [c]).map (·, false), rest)
  match found with
  | none => .error .propertyUnknown
  | some (s, inverse) => do
      let s ← flags.complement (negated != inverse) (flags.fold s)
      .ok (s, rest)

/-- The classes of digits, blanks and word characters. -/
def shorthand (flags : Flags) (c : Char) : CharSet :=
  if flags.unicode then
    if c = 'd' then Unicode.digits else if c = 's' then Unicode.blanks else Unicode.words
  else if c = 'd' then .ofRanges [('0', '9')]
  else if c = 's' then .ofRanges [('\t', '\r'), (' ', ' ')]
  else asciiWords

/-! ### Boundaries -/

/-- After `\b`: the special boundary named in braces.  Braces whose first character cannot start such a
name are left for a repetition. -/
def readBoundary (flags : Flags) (cs : List Char) : Except PatternError (BoundaryTest × List Char) :=
  let isNameChar := fun (c : Char) => c.isAlpha || c == '-'
  match cs with
  | '\x7b' :: inside =>
      match flags.skip inside with
      | [] => .error .boundaryUnclosed
      | c :: more =>
          if !isNameChar c then .ok (.edge, cs)
          else
            let (name, rest) := flags.readWhile isNameChar (more.length + 1) (c :: more)
            match rest with
            | '\x7d' :: rest =>
                match String.ofList name with
                | "start" => .ok (.start, rest)
                | "end" => .ok (.finish, rest)
                | "start-half" => .ok (.startHalf, rest)
                | "end-half" => .ok (.finishHalf, rest)
                | _ => .error .boundaryUnknown
            | _ => .error .boundaryUnclosed
  | _ => .ok (.edge, cs)

/-! ### Escapes -/

/-- An escape after its backslash. -/
def readEscape (flags : Flags) : List Char → Except PatternError (Escaped × List Char)
  | [] => .error .escapeUnfinished
  | c :: cs =>
      let boundary := fun (test : BoundaryTest) => Escaped.assertion (.boundary test (!flags.unicode))
      if c.isDigit then .error .backreference
      else match c with
      | 'x' => (readHex flags 2 cs).map fun (c, rest) => (.literal c, rest)
      | 'u' => (readHex flags 4 cs).map fun (c, rest) => (.literal c, rest)
      | 'U' => (readHex flags 8 cs).map fun (c, rest) => (.literal c, rest)
      | 'p' => (readProperty flags false cs).map fun (s, rest) => (.set s, rest)
      | 'P' => (readProperty flags true cs).map fun (s, rest) => (.set s, rest)
      | 'd' | 's' | 'w' => .ok (.set (shorthand flags c), cs)
      | 'D' | 'S' | 'W' => (flags.complement true (shorthand flags c.toLower)).map fun s => (.set s, cs)
      | 'a' => .ok (.literal '\x07', cs)
      | 'f' => .ok (.literal '\x0c', cs)
      | 't' => .ok (.literal '\t', cs)
      | 'n' => .ok (.literal '\n', cs)
      | 'r' => .ok (.literal '\r', cs)
      | 'v' => .ok (.literal '\x0b', cs)
      | 'A' => .ok (.assertion .textStart, cs)
      | 'z' => .ok (.assertion .textEnd, cs)
      | 'b' => (readBoundary flags cs).map fun (test, rest) => (boundary test, rest)
      | 'B' => .ok (boundary .noEdge, cs)
      | '<' => .ok (boundary .start, cs)
      | '>' => .ok (boundary .finish, cs)
      | _ =>
          if c.toNat < 0x80 && !c.isAlphanum then .ok (.literal c, cs)
          else .error .escapeUnknown

end GrammarKit.Regex
