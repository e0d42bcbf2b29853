/-
Module: GrammarKit.Regex.Class
Purpose: Classes of characters in square brackets: single characters, ranges, escapes, named classes,
  nested classes, and the operations on classes.  Beside the characters of a class it is noted how deep its
  parts nest.
Main exports: ClassPart, readClass
-/
import GrammarKit.Regex.Escape

namespace GrammarKit.Regex

open Unicode (CharSet)

/-! ### Named classes -/

/-- The named classes, all of them below 128. -/
def asciiClass? (name : String) : Option CharSet :=
  match name with
  | "alnum" => some (.ofRanges [('0', '9'), ('A', 'Z'), ('a', 'z')])
  | "alpha" => some (.ofRanges [('A', 'Z'), ('a', 'z')])
  | "ascii" => some (.ofRanges [('\x00', '\x7f')])
  | "blank" => some (.ofRanges [('\t', '\t'), (' ', ' ')])
  | "cntrl" => some (.ofRanges [('\x00', '\x1f'), ('\x7f', '\x7f')])
  | "digit" => some (.ofRanges [('0', '9')])
  | "graph" => some (.ofRanges [('!', '~')])
  | "lower" => some (.ofRanges [('a', 'z')])
  | "print" => some (.ofRanges [(' ', '~')])
  | "punct" => some (.ofRanges [('!', '/'), (':', '@'), ('[', '\x60'), ('\x7b', '~')])
  | "space" => some (.ofRanges [('\t', '\r'), (' ', ' ')])
  | "upper" => some (.ofRanges [('A', 'Z')])
  | "word" => some asciiWords
  | "xdigit" => some (.ofRanges [('0', '9'), ('A', 'F'), ('a', 'f')])
  | _ => none

/-- A named class after its opening bracket, such as `:alpha:]` or `:^alpha:]`.  Anything else is left to
be read as a nested class. -/
def readAsciiClass? (cs : List Char) : Option (CharSet × Bool × List Char) :=
  match cs with
  | ':' :: cs =>
      let (negated, cs) := match cs with
        | '^' :: rest => (true, rest)
        | _ => (false, cs)
      let name := cs.takeWhile (· != ':')
      match cs.drop name.length with
      | ':' :: ']' :: rest => (asciiClass? (String.ofList name)).map (·, negated, rest)
      | _ => none
  | _ => none

/-! ### Parts of a class -/

/-- A set of characters as written in a class, and how deep its parts nest. -/
structure ClassPart where
  set : CharSet
  depth : Nat
deriving Repr, Inhabited, DecidableEq

/-- The items of a class read so far: their union, their number, and how deep the deepest nests. -/
structure ClassItems where
  set : CharSet
  count : Nat
  depth : Nat
deriving Repr, Inhabited, DecidableEq

namespace ClassItems

def none : ClassItems := ⟨.empty, 0, 0⟩

def add (items : ClassItems) (part : ClassPart) : ClassItems :=
  ⟨items.set.union part.set, items.count + 1, max items.depth part.depth⟩

/-- Several items together nest one deeper than each of them. -/
def part (items : ClassItems) : ClassPart :=
  ⟨items.set, if items.count > 1 then items.depth + 1 else items.depth⟩

end ClassItems

/-- How two classes are combined inside square brackets. -/
inductive ClassOp where
  | inter
  | diff
  | symmDiff
deriving Repr, Inhabited, DecidableEq

/-- The combination of two sets. -/
def ClassOp.apply (op : ClassOp) (s t : CharSet) : CharSet :=
  match op with
  | inter => s.inter t
  | diff => s.diff t
  | symmDiff => s.symmDiff t

/-- An operation that waits for its right side. -/
structure PendingOp where
  op : ClassOp
  left : ClassPart
deriving Repr, Inhabited, DecidableEq

/-- The combination of some items with what stands before them. -/
def combine (pending : Option PendingOp) (items : ClassItems) : ClassPart :=
  match pending with
  | none => items.part
  | some p => ⟨p.op.apply p.left.set items.part.set, max p.left.depth items.part.depth + 1⟩

/-! ### Items -/

/-- One character or escape of a class. -/
def readClassItem (flags : Flags) : List Char → Except PatternError (Escaped × List Char)
  | [] => .error .classUnclosed
  | '\\' :: cs => readEscape flags cs
  | c :: cs => .ok (.literal c, cs)

/-- An item that stands alone in a class. -/
def itemSet (flags : Flags) : Escaped → Except PatternError CharSet
  | .literal c => flags.range c c
  | .set s => .ok s
  | .assertion _ => .error .classEscape

/-- One item of a class, or a range of characters. -/
def readClassRange (flags : Flags) (cs : List Char) : Except PatternError (CharSet × List Char) := do
  let (first, cs) ← readClassItem flags cs
  let cs := flags.skip cs
  match cs with
  | [] => .error .classUnclosed
  | '-' :: after =>
      if flags.peek after ∈ [some ']', some '-'] then (itemSet flags first).map (·, cs)
      else do
        let (last, rest) ← readClassItem flags (flags.skip after)
        match first, last with
        | .literal a, .literal b =>
            if a ≤ b then (flags.range a b).map (·, rest) else .error .classRange
        | _, _ => .error .classRangeBoundary
  | _ => (itemSet flags first).map (·, cs)

/-! ### Classes -/

/-- Hyphens at the start of a class, which stand for themselves, and their number.  Fuel bounds the number
of characters. -/
def dropHyphens (flags : Flags) : Nat → List Char → Nat × List Char
  | fuel + 1, '-' :: cs =>
      let (count, rest) := dropHyphens flags fuel (flags.skip cs)
      (count + 1, rest)
  | _, cs => (0, cs)

/-- What stands between the opening bracket of a class and its items: whether the class is negated, and
the characters that only here stand for themselves. -/
def readClassHead (flags : Flags) (cs : List Char) : Bool × ClassItems × List Char :=
  let cs := flags.skip cs
  let (negated, cs) := match cs with
    | '^' :: rest => (true, flags.skip rest)
    | _ => (false, cs)
  let (hyphens, cs) := dropHyphens flags cs.length cs
  if hyphens > 0 then (negated, ⟨.single '-'.toNat, hyphens, 0⟩, cs)
  else match cs with
    | ']' :: rest => (negated, ⟨.single ']'.toNat, 1, 0⟩, flags.skip rest)
    | _ => (negated, .none, cs)

/-- The items of a class up to its closing bracket.  Fuel bounds the number of characters. -/
def readClassItems (flags : Flags) :
    Nat → Bool → Option PendingOp → ClassItems → List Char →
      Except PatternError (ClassPart × List Char)
  | 0, _, _, _, _ => .error .classUnclosed
  | fuel + 1, negated, pending, items, cs =>
      let operator := fun (op : ClassOp) (rest : List Char) =>
        readClassItems flags fuel negated (some ⟨op, combine pending items⟩) .none rest
      match flags.skip cs with
      | [] => .error .classUnclosed
      | '[' :: rest =>
          match readAsciiClass? rest with
          | some (s, inverse, rest) => do
              let s ← flags.complement inverse (flags.fold s)
              readClassItems flags fuel negated pending (items.add ⟨s, 0⟩) rest
          | none => do
              let (innerNegated, start, inside) := readClassHead flags rest
              let (part, rest) ← readClassItems flags fuel innerNegated none start inside
              readClassItems flags fuel negated pending (items.add part) rest
      | ']' :: rest => do
          let part := combine pending items
          let s ← flags.complement negated part.set
          .ok (⟨s, part.depth + 1⟩, rest)
      | '&' :: '&' :: rest => operator .inter rest
      | '-' :: '-' :: rest => operator .diff rest
      | '~' :: '~' :: rest => operator .symmDiff rest
      | cs => do
          let (s, rest) ← readClassRange flags cs
          readClassItems flags fuel negated pending (items.add ⟨s, 0⟩) rest

/-- A class after its opening bracket. -/
def readClass (flags : Flags) (cs : List Char) : Except PatternError (ClassPart × List Char) :=
  let (negated, start, rest) := readClassHead flags cs
  readClassItems flags (rest.length + 1) negated none start rest

end GrammarKit.Regex
