/-
Module: GrammarKit.Tree
Purpose: Concrete parse trees.  A tree has the shape of the term that matched: slices of the input at its
  leaves, labelled nodes inside, and elided slots where a list left out an element.
Main exports: Tree, Tree.leaves, Tree.text, Tree.agrees, Tree.contentEq, Tree.display
-/
import GrammarKit.Term
import GrammarKit.Text.Quoted
import GrammarKit.Text.Slice

namespace GrammarKit

/-- The grouping and the number of elements of a list node. -/
structure ListShape where
  assoc : Assoc
  terms : Nat
deriving Repr, Inhabited, DecidableEq

/-- What a node records besides its tag and children. -/
inductive Extra where
  /-- The alternative that a choice took. -/
  | choice (index : Nat)
  /-- The shape of a list. -/
  | list (shape : ListShape)
deriving Repr, Inhabited, DecidableEq

/-- How an extra is shown. -/
def Extra.display : Extra → String
  | .choice i => toString i
  | .list shape => shape.assoc.operator ++ toString shape.terms

/-- Parse trees. -/
inductive Tree where
  | leaf (slice : Slice)
  | node (tag : String) (extra : Option Extra) (children : List Tree)
  /-- An element that a list leaves out. -/
  | elided
deriving Inhabited

namespace Tree

/-- The tag of a sequence without a label. -/
def seqTag : String := "_"

/-- The tag of a choice without a label. -/
def choiceTag : String := "|"

/-- The tag of a list without a label. -/
def listTag : String := ":"

/-- The tag of a repetition without a label. -/
def quantTag : String := "?"

/-- The alternative that a choice node took. -/
def choice? : Tree → Option Nat
  | node _ (some (.choice i)) _ => some i
  | _ => none

/-- The shape of a list node. -/
def listShape? : Tree → Option ListShape
  | node _ (some (.list shape)) _ => some shape
  | _ => none

mutual
/-- The leaves from left to right. -/
def leaves : Tree → List Slice
  | leaf s => [s]
  | node _ _ children => leavesAll children
  | elided => []

/-- The leaves of several trees from left to right. -/
def leavesAll : List Tree → List Slice
  | [] => []
  | t :: ts => leaves t ++ leavesAll ts
end

theorem leavesAll_eq_flatMap (ts : List Tree) : leavesAll ts = ts.flatMap leaves := by
  induction ts with
  | nil => rfl
  | cons t ts ih => simp [leavesAll, ih]

/-- The characters of all leaves from left to right. -/
def chars (t : Tree) : List Char :=
  t.leaves.flatMap Slice.chars

/-- The text of all leaves from left to right. -/
def text (t : Tree) : String :=
  String.ofList t.chars

mutual
/-- Whether two trees are equal up to a given comparison of their leaves. -/
def equalUpTo (same : Slice → Slice → Bool) : Tree → Tree → Bool
  | leaf s, leaf s' => same s s'
  | node tag extra children, node tag' extra' children' =>
      tag == tag' && extra == extra' && equalUpToAll same children children'
  | elided, elided => true
  | _, _ => false

/-- Whether two lists of trees are equal up to a given comparison of their leaves. -/
def equalUpToAll (same : Slice → Slice → Bool) : List Tree → List Tree → Bool
  | [], [] => true
  | t :: ts, t' :: ts' => equalUpTo same t t' && equalUpToAll same ts ts'
  | _, _ => false
end

/-- Equal trees whose leaves start at the same offsets. -/
def agrees : Tree → Tree → Bool :=
  equalUpTo Slice.agrees

/-- Equal trees, whatever the offsets of their leaves. -/
def contentEq : Tree → Tree → Bool :=
  equalUpTo fun s t => s.chars == t.chars

/-- How a leaf is shown: its offset and its text. -/
def displayLeaf (s : Slice) : String :=
  toString s.start ++ "‣" ++ quotedChars s.chars

mutual
/-- Write a tree on one line, at the end of a text. -/
def write (out : String) : Tree → String
  | leaf s => out ++ displayLeaf s
  | node tag extra children =>
      let out := out ++ tag ++ (match extra with
        | some extra => "║" ++ extra.display
        | none => "")
      writeAll (out ++ "[") true children ++ "]"
  | elided => out ++ "∅"

/-- Write trees with commas between them; `first` says that none has been written yet. -/
def writeAll (out : String) (first : Bool) : List Tree → String
  | [] => out
  | t :: ts => writeAll (write (if first then out else out ++ ", ") t) false ts
end

/-- A tree on one line. -/
def display (t : Tree) : String :=
  write "" t

mutual
/-- The number of nodes on the longest way down a tree. -/
def depth : Tree → Nat
  | leaf _ => 0
  | node _ _ children => depthAll children + 1
  | elided => 0

/-- The greatest depth among several trees. -/
def depthAll : List Tree → Nat
  | [] => 0
  | t :: ts => max (depth t) (depthAll ts)
end

end Tree
end GrammarKit
