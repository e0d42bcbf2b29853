/-
Module: GrammarKit.Text.Slice
Purpose: Slices of a source text.  A slice knows the text it is a part of and where it starts, so a
  parse tree can keep slices as its leaves and a failed attempt leaves nothing behind.  All offsets and
  lengths are bytes of UTF-8; the characters in view are a list, which is what the matching runs on.
Main exports: Source, Slice, Slice.merge, Slice.position, Slice.context
-/

namespace GrammarKit

/-- The number of bytes that a text takes in UTF-8. -/
def byteLength : List Char → Nat
  | [] => 0
  | c :: cs => c.utf8Size + byteLength cs

@[simp] theorem byteLength_nil : byteLength [] = 0 := rfl

@[simp] theorem byteLength_cons (c : Char) (cs : List Char) :
    byteLength (c :: cs) = c.utf8Size + byteLength cs := rfl

@[simp] theorem byteLength_append (xs ys : List Char) :
    byteLength (xs ++ ys) = byteLength xs + byteLength ys := by
  induction xs with
  | nil => simp
  | cons c xs ih => simp [ih, Nat.add_assoc]

/-- Split a text after `n` bytes.  A character that would straddle the border goes to the second part. -/
def splitBytes : Nat → List Char → List Char × List Char
  | _, [] => ([], [])
  | n, c :: cs =>
      if c.utf8Size ≤ n then
        let (before, after) := splitBytes (n - c.utf8Size) cs
        (c :: before, after)
      else ([], c :: cs)

/-- Splitting loses nothing. -/
theorem splitBytes_append (n : Nat) (cs : List Char) :
    (splitBytes n cs).1 ++ (splitBytes n cs).2 = cs := by
  induction cs generalizing n with
  | nil => rfl
  | cons c cs ih =>
    rw [splitBytes]
    split
    · simpa using ih (n - c.utf8Size)
    · rfl

/-- A text to parse.  Two sources are the same one exactly if their identities agree: equal texts may be
read twice and are then two sources. -/
structure Source where
  /-- The identity of the source. -/
  id : Nat
  /-- The whole text. -/
  text : String
  /-- Where the text came from, if it has a name. -/
  filename : Option String
deriving Repr, Inhabited, DecidableEq

/-- A part of a source: where it starts, in bytes, and the characters in view. -/
structure Slice where
  /-- The source that the slice is a part of. -/
  source : Source
  /-- The offset of the first character, in bytes. -/
  start : Nat
  /-- The characters in view. -/
  chars : List Char
deriving Repr, Inhabited, DecidableEq

/-- The whole of a source. -/
def Source.whole (source : Source) : Slice :=
  ⟨source, 0, source.text.toList⟩

/-- The part of a source between two byte offsets. -/
def Source.span (source : Source) (first last : Nat) : Slice :=
  let after := (splitBytes first source.text.toList).2
  ⟨source, first, (splitBytes (last - first) after).1⟩

namespace Slice

/-- A slice of a fresh text without a name. -/
def ofText (text : String) : Slice :=
  Source.whole ⟨0, text, none⟩

/-- The text in view. -/
def text (s : Slice) : String :=
  String.ofList s.chars

/-- The number of bytes in view. -/
def length (s : Slice) : Nat :=
  byteLength s.chars

/-- The offset just after the last character in view. -/
def stop (s : Slice) : Nat :=
  s.start + s.length

/-- Whether nothing is in view. -/
def isEmpty (s : Slice) : Bool :=
  s.chars.isEmpty

/-- Two slices of one and the same source. -/
def sameSource (s t : Slice) : Bool :=
  s.source.id == t.source.id

/-- Slices agree if they start at one offset and show one text; the rest of their sources does not
matter. -/
def agrees (s t : Slice) : Bool :=
  s.start == t.start && s.chars == t.chars

/-- Drop the first `n` characters. -/
def dropChars (s : Slice) (n : Nat) : Slice :=
  ⟨s.source, s.start + byteLength (s.chars.take n), s.chars.drop n⟩

/-- Keep the first `n` characters. -/
def takeChars (s : Slice) (n : Nat) : Slice :=
  ⟨s.source, s.start, s.chars.take n⟩

/-- The characters from index `first` up to index `last`. -/
def extract (s : Slice) (first last : Nat) : Slice :=
  (s.dropChars first).takeChars (last - first)

/-- Drop the first `n` bytes. -/
def dropBytes (s : Slice) (n : Nat) : Slice :=
  ⟨s.source, s.start + n, (splitBytes n s.chars).2⟩

/-- Keep the first `n` bytes. -/
def takeBytes (s : Slice) (n : Nat) : Slice :=
  ⟨s.source, s.start, (splitBytes n s.chars).1⟩

/-- The empty slice at the start of a slice. -/
def emptyAtStart (s : Slice) : Slice :=
  s.takeChars 0

/-- If the slice starts with `literal`, the part that matches it and the rest. -/
def splitLiteral? (s : Slice) (literal : List Char) : Option (Slice × Slice) :=
  if literal.isPrefixOf s.chars then
    some (s.takeChars literal.length, s.dropChars literal.length)
  else none

/-- What can stop slices from being merged. -/
inductive MergeError where
  | empty
  | differentSources
deriving Repr, Inhabited, DecidableEq

/-- The text of a merge error. -/
def MergeError.message : MergeError → String
  | .empty => "cannot merge an empty set of scanners"
  | .differentSources => "cannot merge scanners drawn from different sources"

/-- The smallest slice of the common source that covers all the given slices. -/
def merge : List Slice → Except MergeError Slice
  | [] => .error .empty
  | first :: others =>
      if others.all (·.sameSource first) then
        let lowest := others.foldl (fun lo s => min lo s.start) first.start
        let highest := others.foldl (fun hi s => max hi s.stop) first.stop
        .ok (first.source.span lowest highest)
      else .error .differentSources

/-- The line and the column, both counted from one, at which a slice starts.  Columns count bytes. -/
def position (s : Slice) : Nat × Nat :=
  let before := (splitBytes s.start s.source.text.toList).1
  let line := before.count '\n' + 1
  let lastLine := before.reverse.takeWhile (· ≠ '\n')
  (line, byteLength lastLine + 1)

/-- The first `limit + 1` lines of a text, without the newline that ends the last of them. -/
def firstLines : Nat → List Char → List Char
  | _, [] => []
  | 0, c :: cs => if c = '\n' then [] else c :: firstLines 0 cs
  | n + 1, c :: cs => if c = '\n' then c :: firstLines n cs else c :: firstLines (n + 1) cs

/-- The last `limit + 1` lines of a text. -/
def lastLines (limit : Nat) (cs : List Char) : List Char :=
  (firstLines limit cs.reverse).reverse

/-- How many lines of context an error message shows on either side. -/
def contextLines : Nat := 3

/-- The slice, highlighted in red, within its source: a line with file name, line and column, then
`limit` whole lines on either side (all lines if `limit` is zero). -/
def context (s : Slice) (limit : Nat) : String :=
  let (before, onward) := splitBytes s.start s.source.text.toList
  let after := (splitBytes s.length onward).2
  let (before, after) :=
    if limit = 0 then (before, after) else (lastLines limit before, firstLines limit after)
  let (line, column) := s.position
  "\n" ++ s.source.filename.getD "" ++ ":" ++ toString line ++ ":" ++ toString column ++ ":\n"
    ++ String.ofList before ++ "\x1b[1;31m" ++ s.text ++ "\x1b[0m" ++ String.ofList after

end Slice
end GrammarKit
