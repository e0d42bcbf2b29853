/-
Module: GrammarKit.Unicode.CharSet
Purpose: Sets of code points, held by their edges: the places where one goes from outside to inside or
  back.  Every operation on two sets is one walk over the edges of both, whatever it keeps.
Main exports: CharSet, CharSet.holds, CharSet.mem, CharSet.ranges, CharSet.union, CharSet.inter,
  CharSet.diff, CharSet.compl
-/

namespace GrammarKit.Unicode

/-- A set of code points by its edges in ascending order: the first member, then the first code point after
it that is none, and so on in turns. -/
structure CharSet where
  edges : List Nat
deriving Repr, Inhabited, DecidableEq

namespace CharSet

/-- The first number that is no code point. -/
def codeLimit : Nat := 0x110000

/-! ### Membership -/

/-- Membership of a code point by the edges that follow a place; `inside` says whether the place is in the
set. -/
def holdsFrom (code : Nat) : Bool → List Nat → Bool
  | inside, [] => inside
  | inside, e :: es => if code < e then inside else holdsFrom code (!inside) es

/-- Whether a set holds a code point. -/
def holds (s : CharSet) (code : Nat) : Bool :=
  holdsFrom code false s.edges

/-- Whether a set holds a character. -/
def mem (s : CharSet) (c : Char) : Bool :=
  s.holds c.toNat

/-! ### Small sets -/

def empty : CharSet := ⟨[]⟩

def full : CharSet := ⟨[0, codeLimit]⟩

/-- The code points from the first to the second, both included. -/
def range (first last : Nat) : CharSet :=
  if first ≤ last then ⟨[first, last + 1]⟩ else empty

/-- The set of one code point. -/
def single (code : Nat) : CharSet :=
  range code code

/-- Whether a set has no member. -/
def isEmpty (s : CharSet) : Bool :=
  s.edges.isEmpty

/-- Whether every member is below 128. -/
def isAscii (s : CharSet) : Bool :=
  s.edges.all (· ≤ 0x80)

/-- The only member of a set with one. -/
def only? (s : CharSet) : Option Char :=
  match s.edges with
  | [first, limit] =>
      if limit = first + 1 then
        if h : first.isValidChar then some (Char.ofNatAux first h) else none
      else none
  | _ => none

/-! ### Combining two sets -/

/-- Put an edge in front of others if a change from `before` to `after` calls for one. -/
def edgeIf (before after : Bool) (edge : Nat) (edges : List Nat) : List Nat :=
  if before = after then edges else edge :: edges

/-- Walk over the edges of a second set up to the edge `x` of the first, and over that.  `a` and `b` say
whether the place at hand is in either set, and `next` is the walk beyond `x`. -/
def walkTo (keep : Bool → Bool → Bool) (x : Nat) (next : Bool → Bool → List Nat → List Nat) :
    Bool → Bool → List Nat → List Nat
  | a, b, [] => edgeIf (keep a b) (keep (!a) b) x (next (!a) b [])
  | a, b, y :: ys =>
      if y < x then edgeIf (keep a b) (keep a (!b)) y (walkTo keep x next a (!b) ys)
      else if y = x then edgeIf (keep a b) (keep (!a) (!b)) x (next (!a) (!b) ys)
      else edgeIf (keep a b) (keep (!a) b) x (next (!a) b (y :: ys))

/-- Walk over the rest of the edges of a second set, beyond the last edge of the first. -/
def walkAll (keep : Bool → Bool → Bool) (a : Bool) : Bool → List Nat → List Nat
  | _, [] => []
  | b, y :: ys => edgeIf (keep a b) (keep a (!b)) y (walkAll keep a (!b) ys)

/-- Walk over the edges of two sets. -/
def walk (keep : Bool → Bool → Bool) : List Nat → Bool → Bool → List Nat → List Nat
  | [] => fun a b ys => walkAll keep a b ys
  | x :: xs => walkTo keep x (walk keep xs)

/-- The set of the code points for which `keep` holds of their memberships in two sets; it must not hold
of code points in neither. -/
def combine (keep : Bool → Bool → Bool) (s t : CharSet) : CharSet :=
  ⟨walk keep s.edges false false t.edges⟩

def union (s t : CharSet) : CharSet :=
  combine (· || ·) s t

def inter (s t : CharSet) : CharSet :=
  combine (· && ·) s t

def diff (s t : CharSet) : CharSet :=
  combine (fun a b => a && !b) s t

def symmDiff (s t : CharSet) : CharSet :=
  combine (· != ·) s t

/-- All other code points. -/
def compl (s : CharSet) : CharSet :=
  full.diff s

/-- A set with one more code point. -/
def insert (s : CharSet) (code : Nat) : CharSet :=
  s.union (single code)

/-! ### Ranges -/

/-- The ranges that edges enclose, first and last code point of each. -/
def rangesOf : List Nat → List (Nat × Nat)
  | first :: limit :: edges => (first, limit - 1) :: rangesOf edges
  | _ => []

/-- The ranges of a set in ascending order. -/
def ranges (s : CharSet) : List (Nat × Nat) :=
  rangesOf s.edges

/-- Edges from bounds, two for each range, which may touch: where a range ends as the next begins, no edge
is left. -/
def joinBounds : List Nat → List Nat
  | [] => []
  | bound :: bounds =>
      match joinBounds bounds with
      | [] => [bound]
      | next :: edges => if bound = next then edges else bound :: next :: edges

/-- The set of several ranges in ascending order, given by their first members and the first code points
after them. -/
def ofBounds (bounds : List Nat) : CharSet :=
  ⟨joinBounds bounds⟩

/-- The characters of several ranges. -/
def ofRanges (ranges : List (Char × Char)) : CharSet :=
  ranges.foldl (fun s (first, last) => s.union (range first.toNat last.toNat)) empty

/-! ### Stored sets -/

/-- The decimal numbers in a text; `value` is what has been read of the one at hand. -/
def decimals (value : Option Nat) : List Char → List Nat
  | [] => value.toList
  | c :: cs =>
      if c.isDigit then decimals (some (10 * value.getD 0 + (c.toNat - 48))) cs
      else value.toList ++ decimals none cs

/-- The places that follow `start` at given distances from one another. -/
def placesFrom (start : Nat) : List Nat → List Nat
  | [] => []
  | gap :: gaps => (start + gap) :: placesFrom (start + gap) gaps

/-- The set whose edges stand at distances that are written out in lines of decimal numbers. -/
def ofGaps (lines : List String) : CharSet :=
  ⟨placesFrom 0 (lines.flatMap fun line => decimals none line.toList)⟩

end CharSet

end GrammarKit.Unicode
