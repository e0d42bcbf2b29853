/-
Module: GrammarKit.Regex.Extent
Purpose: How much room an automaton over bytes takes that matches a pattern, forward with its groups or
  backward without them.  A pattern is refused if either would be larger than a limit.  The automata are
  not built: what is counted are their states, in the order in which they would be made.
Main exports: CharSet.sequences, Layout, Direction, Direction.layout, Pattern.fits
-/
import Std.Data.HashMap
import GrammarKit.Regex.Pattern

namespace GrammarKit.Regex

open Unicode (CharSet)

/-! ### Characters as bytes -/

/-- A range of bytes, both ends included. -/
abbrev ByteRange := Nat × Nat

/-- The number of codes that `n` further bytes can tell apart, six bits each. -/
def blockSize : Nat → Nat
  | 0 => 1
  | n + 1 => 64 * blockSize n

/-- Sequences of ranges of digits to the base 64, all with `n + 1` digits, that together cover the numbers
from `first` to `last`, in ascending order.  Where a range is not the last of its sequence and has more than
one member, those that follow it are full. -/
def digitRanges : Nat → Nat → Nat → List (List ByteRange)
  | 0, first, last => [[(first, last)]]
  | n + 1, first, last =>
      let block := blockSize (n + 1)
      let (a, b) := (first / block, last / block)
      let (low, high) := (first % block, last % block)
      if a = b then (digitRanges n low high).map ((a, a) :: ·)
      else
        let head := if low = 0 then [] else (digitRanges n low (block - 1)).map ((a, a) :: ·)
        let tail := if high = block - 1 then [] else (digitRanges n 0 high).map ((b, b) :: ·)
        let start := if low = 0 then a else a + 1
        let upto := if high = block - 1 then b + 1 else b
        let middle :=
          if start < upto then [(start, upto - 1) :: List.replicate (n + 1) (0, 63)] else []
        head ++ middle ++ tail

/-- Turn a sequence of digits into bytes: the first byte shows how many follow. -/
def toBytes (lead : Nat) : List ByteRange → List ByteRange
  | [] => []
  | (first, last) :: rest =>
      (lead + first, lead + last) :: rest.map fun (first, last) => (0x80 + first, 0x80 + last)

/-- The code points that are encoded by one to four bytes, as first code point, last code point, number of
further bytes and what is added to the first byte; those that encode no character are left out. -/
def encodedBlocks : List (Nat × Nat × Nat × Nat) :=
  [(0, 0x7f, 0, 0), (0x80, 0x7ff, 1, 0xc0), (0x800, 0xd7ff, 2, 0xe0), (0xe000, 0xffff, 2, 0xe0),
   (0x10000, 0x10ffff, 3, 0xf0)]

/-- Sequences of ranges of bytes that together are the encodings of a range of code points. -/
def byteSequences (first last : Nat) : List (List ByteRange) :=
  encodedBlocks.flatMap fun (low, high, more, lead) =>
    let (first, last) := (max first low, min last high)
    if first ≤ last then (digitRanges more first last).map (toBytes lead) else []

/-- Sequences of ranges of bytes that together are the encodings of the characters of a set. -/
def sequencesOf (s : CharSet) : List (List ByteRange) :=
  s.ranges.flatMap fun (first, last) => byteSequences first last

/-- The bytes that encode a character. -/
def bytesOf (c : Char) : List Nat :=
  ((byteSequences c.toNat c.toNat).flatMap id).map (·.1)

/-! ### Room -/

/-- The number of states, and the bytes that their transitions take besides. -/
structure Extent where
  states : Nat
  extra : Nat
deriving Repr, Inhabited, DecidableEq

namespace Extent

/-- Every state takes 32 bytes. -/
def bytes (e : Extent) : Nat :=
  32 * e.states + e.extra

/-- Ten mebibytes. -/
def limit : Nat := 10485760

def fits (e : Extent) : Bool :=
  e.bytes ≤ limit

def add (e f : Extent) : Extent :=
  ⟨e.states + f.states, e.extra + f.extra⟩

end Extent

/-- A state that goes on with one of `n` states takes four bytes for each. -/
def branching (n : Nat) : Extent := ⟨1, 4 * n⟩

/-- A state that takes a byte of one of `n` ranges takes eight bytes for each. -/
def taking (n : Nat) : Extent := ⟨1, 8 * n⟩

/-- A state that takes a byte of a single range, or none. -/
def plain (n : Nat) : Extent := ⟨n, 0⟩

/-! ### Sets, forward: equal continuations are made once -/

/-- The states made for a set: a state is told by its transitions, each with the number of the state that
follows. -/
abbrev Interned := Std.HashMap (List (ByteRange × Nat)) Nat

/-- The sequences that begin with the same range, side by side, without that range. -/
def groupByFirst : List (List ByteRange) → List (ByteRange × List (List ByteRange))
  | [] => []
  | [] :: rest => groupByFirst rest
  | (r :: rs) :: rest =>
      match groupByFirst rest with
      | (r', tails) :: groups =>
          if r = r' then (r, rs :: tails) :: groups else (r, [rs]) :: (r', tails) :: groups
      | [] => [(r, [rs])]

/-- Make the states for some sequences; gives the number of the state where they begin, zero being the end
of them all.  Fuel bounds the length of the sequences. -/
def intern : Nat → List (List ByteRange) → Interned → Nat × Interned
  | 0, _, made => (0, made)
  | fuel + 1, sequences, made =>
      if sequences.all (·.isEmpty) then (0, made)
      else
        let (transitions, made) := (groupByFirst sequences).foldl
          (fun (transitions, made) (r, tails) =>
            let (next, made) := intern fuel tails made
            ((r, next) :: transitions, made)) (([] : List (ByteRange × Nat)), made)
        match made[transitions]? with
        | some number => (number, made)
        | none => (made.size + 1, made.insert transitions (made.size + 1))

/-- The room for the states of a set in which equal continuations are made once. -/
def sharedExtent (sequences : List (List ByteRange)) : Extent :=
  (intern 5 sequences ∅).2.fold (fun e transitions _ => e.add (taking transitions.length)) (plain 1)

/-! ### Sets, backward: what has been made is remembered for a while -/

/-- What is remembered of a state that takes one range of bytes: the state that follows it, the range, and
its own number. -/
structure Remembered where
  next : Nat
  range : ByteRange
  state : Nat
deriving Repr, Inhabited, DecidableEq

/-- The number of places to remember states in. -/
def memorySize : Nat := 1000

/-- Mix one more number into a hash. -/
def mix (hash : UInt64) (n : Nat) : UInt64 :=
  (hash ^^^ n.toUInt64) * 1099511628211

/-- The place where a state is remembered; whatever was there is forgotten. -/
def placeOf (next : Nat) (range : ByteRange) : Nat :=
  (mix (mix (mix 14695981039346656037 next) range.1) range.2).toNat % memorySize

/-- Make the states for one sequence, the first range next to the end, except for those still
remembered. -/
def addSequence (memory : Array (Option Remembered)) (states next : Nat) :
    List ByteRange → Array (Option Remembered) × Nat
  | [] => (memory, states)
  | range :: ranges =>
      let place := placeOf next range
      let known := match memory[place]? with
        | some (some r) => if r.next = next && r.range = range then some r.state else none
        | _ => none
      match known with
      | some state => addSequence memory states state ranges
      | none =>
          addSequence (memory.setIfInBounds place (some ⟨next, range, states⟩)) (states + 1) states
            ranges

/-- Make the states for a set: one that branches to all sequences, the end, and the states of the
sequences. -/
def addSequences (sequences : List (List ByteRange)) (e : Extent) : Extent :=
  let (_, states) := sequences.foldl
    (fun (memory, states) ranges => addSequence memory states (e.states + 1) ranges)
    (Array.replicate memorySize none, e.states + 2)
  ⟨states, e.extra + 4 * sequences.length⟩

/-! ### Choices between texts: a tree of prefixes -/

/-- Texts up to the next empty one, again and again; empty texts at the start count as one. -/
def splitAtEmpty : Bool → List (List Nat) → List (List (List Nat))
  | _, [] => [[]]
  | atStart, [] :: texts =>
      if atStart && texts.head? = some [] then splitAtEmpty true texts
      else [] :: splitAtEmpty false texts
  | _, text :: texts =>
      match splitAtEmpty false texts with
      | part :: parts => (text :: part) :: parts
      | [] => [[text]]

/-- The room for a tree of prefixes; where texts end, their order against longer ones is kept.  Fuel
bounds the length of the texts. -/
def treeExtent : Nat → List (List Nat) → Extent
  | 0, _ => plain 0
  | fuel + 1, texts =>
      if texts.all (·.isEmpty) then plain 0
      else
        let parts := splitAtEmpty true texts
        let firsts := parts.map fun part => (part.filterMap (·.head?)).eraseDups
        let own := firsts.foldl (fun e bytes =>
          match bytes with
          | [] => e
          | [_] => e.add (plain 1)
          | _ => e.add (taking bytes.length)) (plain 0)
        let below := (parts.zip firsts).flatMap fun (part, bytes) => bytes.map fun b =>
          treeExtent fuel ((part.filter (·.head? = some b)).map (·.drop 1))
        below.foldl Extent.add
          (own.add (branching ((firsts.filter (!·.isEmpty)).length + parts.length - 1)))

/-! ### Patterns -/

/-- What an automaton is made of, in the order in which it is made. -/
inductive Layout where
  | states (e : Extent)
  /-- A set of characters, where states are remembered for a while. -/
  | remembering (sequences : List (List ByteRange))
  | both (first second : Layout)
  | times (n : Nat) (part : Layout)
deriving Inhabited

/-- Do something `n` times, or until there is more than the limit. -/
def addTimes (step : Extent → Extent) : Nat → Extent → Extent
  | 0, e => e
  | n + 1, e => if e.fits then addTimes step n (step e) else e

/-- The room taken once a layout has been added. -/
def Layout.addTo : Layout → Extent → Extent
  | states e, taken => taken.add e
  | remembering sequences, taken => addSequences sequences taken
  | both p q, taken => q.addTo (p.addTo taken)
  | times n p, taken => addTimes p.addTo n taken

/-- One layout after the other. -/
def Layout.ofList (ps : List Layout) : Layout :=
  ps.foldr Layout.both (.states (plain 0))

/-- In which direction an automaton reads; only forward does it note groups. -/
inductive Direction where
  | forward
  | backward
deriving Repr, Inhabited, DecidableEq

namespace Direction

/-- The layout of one character of a set. -/
def setLayout (d : Direction) (s : CharSet) : Layout :=
  if s.isAscii then .states ((plain 1).add (taking s.ranges.length))
  else match d with
    | forward => .states (sharedExtent (sequencesOf s))
    | backward => .remembering (sequencesOf s)

/-- The texts between which a pattern is a choice. -/
def texts? : Pattern → Option (List (List Char))
  | .alt (.literal text) p => do return text :: (← texts? p)
  | .literal text => some [text]
  | _ => none

/-- The layout of a pattern, given those of its alternatives: the second one is made before the state where
they meet. -/
def choiceLayout (d : Direction) (p : Pattern) (alternatives : List Layout) : Layout :=
  match alternatives with
  | [] => .states (plain 0)
  | [q] => q
  | first :: second :: others =>
      match texts? p with
      | some texts =>
          let words := texts.map fun text =>
            let bytes := text.flatMap bytesOf
            match d with
            | forward => bytes
            | backward => bytes.reverse
          .states ((treeExtent ((words.map List.length).foldl max 0) words).add (plain 1))
      | none =>
          .ofList (first :: second ::
            .states ((branching alternatives.length).add (plain 1)) :: others)

/-- The layout of a part that may be left out. -/
def optionalLayout (part : Layout) : Layout :=
  .ofList [.states (branching 2), part, .states (plain 1)]

/-- The layout of any number of rounds of a part; one that may take no character needs more care. -/
def anyLayout (consumes : Bool) (part : Layout) : Layout :=
  if consumes then .both (.states (branching 2)) part
  else .ofList [part, .states (branching 2), .states (branching 2), .states (plain 1)]

/-- The layout of a repetition. -/
def repetitionLayout (consumes : Bool) (part : Layout) (min : Nat) : Option Nat → Layout
  | none =>
      if min = 0 then anyLayout consumes part
      else .both (.times min part) (.states (branching 2))
  | some max =>
      if min = 0 && max = 1 then optionalLayout part
      else if min = max then .times min part
      else
        let required := if min = 0 then .states (plain 1) else .times min part
        .ofList [required, .states (plain 1), .times (max - min) (.both (.states (branching 2)) part)]

/-- The layouts of the alternatives of a pattern, which has one if it is no choice. -/
def layouts (d : Direction) : Pattern → List Layout
  | .empty => [.states (plain 1)]
  | .literal text => [.states (plain ((text.flatMap bytesOf).length))]
  | .set s => [d.setLayout s]
  | .assertion _ => [.states (plain 1)]
  | .group _ p =>
      let inner := d.choiceLayout p (d.layouts p)
      match d with
      | forward => [.ofList [.states (plain 1), inner, .states (plain 1)]]
      | backward => [inner]
  | .seq p q =>
      let first := d.choiceLayout p (d.layouts p)
      let rest := d.choiceLayout q (d.layouts q)
      match d with
      | forward => [.both first rest]
      | backward => [.both rest first]
  | .alt p q => d.choiceLayout p (d.layouts p) :: d.layouts q
  | .repetition p min max _ =>
      [repetitionLayout p.consumes (d.choiceLayout p (d.layouts p)) min max]

/-- The layout of a whole automaton.  Unless every match begins at the edge of the text, it may first skip
any bytes; forward, the whole match is noted as a group is. -/
def layout (d : Direction) (p : Pattern) : Layout :=
  let inner := d.choiceLayout p (d.layouts p)
  let anchored := match d with
    | forward => p.beginsWith .textStart
    | backward => p.endsWith .textEnd
  let skip := if anchored then plain 1 else ((branching 2).add (plain 1)).add (taking 1)
  match d with
  | forward => .ofList [.states skip, .states (plain 1), inner, .states (plain 2)]
  | backward => .ofList [.states skip, inner, .states (plain 1)]

end Direction

/-- Whether the automata of a pattern fit the limit. -/
def Pattern.fits (p : Pattern) : Bool :=
  [Direction.forward, Direction.backward].all fun d => ((d.layout p).addTo (plain 0)).fits

end GrammarKit.Regex
