/-
Module: GrammarKit.Regex.Flags
Purpose: The flags in force at one place of a pattern, and what they change: which blanks and comments are
  skipped, how sets and single characters match without regard to case, and whether characters of all
  scripts are meant.
Main exports: Flags, Flags.skip, Flags.fold, Flags.complement, Flags.single, Flags.literal
-/
import GrammarKit.Regex.Pattern
import GrammarKit.Regex.PatternError
import GrammarKit.Unicode.CaseFolding

namespace GrammarKit.Regex

open Unicode (CharSet)

/-- The flags in force at one place of a pattern. -/
structure Flags where
  /-- Match without regard to case. -/
  ignoreCase : Bool := false
  /-- `^` and `$` match at line breaks. -/
  multiLine : Bool := false
  /-- `.` matches line breaks as well. -/
  dotAll : Bool := false
  /-- Repetitions are lazy unless marked. -/
  swapGreed : Bool := false
  /-- Character classes cover all scripts. -/
  unicode : Bool := true
  /-- Blanks and comments in the pattern are ignored. -/
  verbose : Bool := false
  /-- A carriage return also breaks lines. -/
  crlf : Bool := false
deriving Repr, Inhabited, DecidableEq

namespace Flags

/-- Set or clear the flag with a given letter. -/
def set? (flags : Flags) (value : Bool) : Char → Option Flags
  | 'i' => some { flags with ignoreCase := value }
  | 'm' => some { flags with multiLine := value }
  | 's' => some { flags with dotAll := value }
  | 'U' => some { flags with swapGreed := value }
  | 'u' => some { flags with unicode := value }
  | 'x' => some { flags with verbose := value }
  | 'R' => some { flags with crlf := value }
  | _ => none

/-! ### Blanks and comments -/

/-- Drop blanks and comments; `inComment` says that a comment has begun. -/
def dropIgnored : Bool → List Char → List Char
  | _, [] => []
  | true, c :: cs => dropIgnored (c != '\n') cs
  | false, c :: cs =>
      if Unicode.isBlank c then dropIgnored false cs
      else if c = '#' then dropIgnored true cs
      else c :: cs

/-- Drop what the flags say is to be ignored. -/
def skip (flags : Flags) (cs : List Char) : List Char :=
  if flags.verbose then dropIgnored false cs else cs

/-- The next character that counts, without going there.  Looking ahead stops at the first character of a
comment that is no blank. -/
def peek (flags : Flags) (cs : List Char) : Option Char :=
  if flags.verbose then
    match cs.dropWhile Unicode.isBlank with
    | '#' :: comment => (comment.dropWhile Unicode.isBlank).head?
    | cs => cs.head?
  else cs.head?

/-- Read up to a closing brace and over it, without what is to be ignored.  Fuel bounds the number of
characters. -/
def readBraced (flags : Flags) : Nat → List Char → Option (List Char × List Char)
  | 0, _ => none
  | fuel + 1, cs =>
      match flags.skip cs with
      | [] => none
      | '\x7d' :: rest => some ([], rest)
      | c :: rest => (flags.readBraced fuel rest).map fun (inside, rest) => (c :: inside, rest)

/-- Read characters of one kind, and what is to be ignored after each.  Fuel bounds the number of
characters. -/
def readWhile (flags : Flags) (accept : Char → Bool) : Nat → List Char → List Char × List Char
  | fuel + 1, c :: cs =>
      if accept c then
        let (taken, rest) := flags.readWhile accept fuel (flags.skip cs)
        (c :: taken, rest)
      else ([], c :: cs)
  | _, cs => ([], cs)

/-! ### Case and scripts -/

/-- The characters below 128. -/
def ascii : CharSet := .range 0 0x7f

/-- A set as it matches under the flags. -/
def fold (flags : Flags) (s : CharSet) : CharSet :=
  if flags.ignoreCase then
    if flags.unicode then s.fold else s.fold.inter ascii
  else s

/-- The complement of a set, which is refused unless classes cover all scripts: it would hold bytes that
are no characters. -/
def complement (flags : Flags) (negated : Bool) (s : CharSet) : Except PatternError CharSet :=
  if negated then
    if flags.unicode then .ok s.compl else .error .notUnicode
  else .ok s

/-- The range of characters from the first to the second in a class, which holds single bytes unless it
covers all scripts. -/
def range (flags : Flags) (first last : Char) : Except PatternError CharSet :=
  if flags.unicode || last.toNat < 0x80 then .ok (flags.fold (.range first.toNat last.toNat))
  else .error .notUnicode

/-- A character that stands for itself outside of classes. -/
def literal (flags : Flags) (c : Char) : Pattern :=
  if flags.unicode || c.toNat < 0x80 then .ofSet (flags.fold (.single c.toNat)) else .literal [c]

end Flags
end GrammarKit.Regex
