/-
Module: GrammarKit.Tree.DelimitedList
Purpose: Delimited lists as trees.  The slots of a list are its elements and separators in turn; a list
  that groups to one side folds them into nested nodes, and they can be taken out of a tree again.
Main exports: Tree.ofSlots, Tree.slots?
-/
import GrammarKit.Tree

namespace GrammarKit.Tree

/-- Group from the left: `group` holds the first `terms - 1` elements. -/
def foldLeft (tag : String) (group : Tree) (terms : Nat) : List Tree → Tree
  | separator :: element :: rest =>
      foldLeft tag (node tag (some (.list ⟨.leftToRight, terms⟩)) [group, separator, element])
        (terms + 1) rest
  | _ => group

/-- Group from the right, the slots given from last to first: `group` holds the last `terms - 1`
elements. -/
def foldRight (tag : String) (group : Tree) (terms : Nat) : List Tree → Tree
  | separator :: element :: rest =>
      foldRight tag (node tag (some (.list ⟨.rightToLeft, terms⟩)) [element, separator, group])
        (terms + 1) rest
  | _ => group

/-- The tree of a list from its slots.  A list of one element, and one that does not group, is a single
node with all slots as its children. -/
def ofSlots (tag : String) (assoc : Assoc) (slots : List Tree) : Tree :=
  let terms := (slots.length + 1) / 2
  let single := node tag (some (.list ⟨assoc, terms⟩)) slots
  if terms < 2 then single
  else match assoc with
  | .flat => single
  | .leftToRight => foldLeft tag (slots.headD elided) 2 slots.tail
  | .rightToLeft => foldRight tag (slots.getLastD elided) 2 slots.reverse.tail

/-- Whether a tree is the group inside a list node of a given tag and shape: the same list with one
element less. -/
def isInnerGroup (tag : String) (shape : ListShape) : Tree → Bool
  | node tag' (some (.list shape')) _ =>
      tag' == tag && shape' == { shape with terms := shape.terms - 1 }
  | _ => false

/-- The slots of a list node, if it has the shape of one. -/
def slots? : Tree → Option (List Tree)
  | node tag (some (.list shape)) children =>
      if shape.assoc = .flat ∨ shape.terms < 3 then some children
      else match children with
      | [first, separator, last] =>
          if shape.assoc = .leftToRight then
            if isInnerGroup tag shape first then
              (slots? first).map (· ++ [separator, last])
            else none
          else if isInnerGroup tag shape last then
            (slots? last).map fun slots => first :: separator :: slots
          else none
      | _ => none
  | _ => none

end GrammarKit.Tree
