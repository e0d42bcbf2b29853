/-
Module: GrammarKit.Unicode.Edition
Purpose: The two editions of the character standard in use.  Text is quoted by the later one;
  patterns know the characters of the earlier one, for which what has been added since is unassigned.
Main exports: added, reclassified, ofCategories
-/
import GrammarKit.Unicode.CharSet
import GrammarKit.Unicode.Category

namespace GrammarKit.Unicode

/-- The code points that the later edition was the first to assign. -/
def added : CharSet := .ofGaps
    ["2191 1 972 1 127 1 3570 15 2 12 1493 1 2772 1 31799 2 2 1 1 1 28 1 21457 16 445 2 54 7 2929 26",
     "1387 3 8 9 33 2 3172 8 584 44 4 10 20662 25 2 25 286 5 6145 8 1289 22 97 115 16135 3 445 23 15",
     "17 6095 31 1 22 8 2 4056 1 158 4 341 9 379 4 50 1 3 1 57 1 4 1 28 1 4 1 266 1 47935 6 5986 12",
     "21762 4298"]

/-- The characters that the earlier edition put into another category. -/
def reclassified : List (Nat × Category) := [(0x295, .Ll)]

/-- The ranges of code points whose category, in the later edition, is among some: each run with the start
of the run after it. -/
def runsWithin (names : List Category) : List (Nat × Category) → List Nat
  | [] => []
  | (start, g) :: rest =>
      if names.contains g then
        start :: (rest.head?.map (·.1)).getD CharSet.codeLimit :: runsWithin names rest
      else runsWithin names rest

/-- The characters that the earlier edition put into some categories. -/
def ofCategories (names : List Category) : CharSet :=
  let later := CharSet.ofBounds (runsWithin names Category.runs.toList)
  let assigned := if names.contains .Cn then later.union added else later.diff added
  reclassified.foldl (fun s (code, g) =>
    if names.contains g then s.insert code else s.diff (.single code)) assigned

/-- Decimal digits of all scripts. -/
def digits : CharSet := ofCategories [.Nd]

end GrammarKit.Unicode
