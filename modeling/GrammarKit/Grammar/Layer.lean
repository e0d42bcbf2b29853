/-
Module: GrammarKit.Grammar.Layer
Purpose: The names of the layers of a stack.  The first layer keeps the name of its rule, the others have
  their number behind an `@`.
Main exports: layerName, splitLayer, baseName
-/
import GrammarKit.Term
import GrammarKit.Unicode.Edition

namespace GrammarKit

/-- The name of a layer. -/
def layerName (base : String) (layer : Nat) : String :=
  if layer = 0 then base else base ++ placeholder ++ toString layer

/-- The first number that does not fit into a machine word. -/
def wordLimit : Nat := 18446744073709551616

/-- The value of a decimal number that fits into a machine word. -/
def wordValue? (cs : List Char) : Option Nat :=
  if cs.isEmpty || !cs.all Char.isDigit then none
  else
    let value := cs.foldl (fun n d => 10 * n + (d.toNat - 48)) 0
    if value < wordLimit then some value else none

/-- The name of the rule and the number of the layer that a name is made of; a name that is none of a
layer counts as layer zero of itself. -/
def splitLayer (name : String) : String × Nat :=
  let backward := name.toList.reverse
  let digits := backward.takeWhile Unicode.digits.mem
  match backward.drop digits.length with
  | '@' :: base =>
      if base.isEmpty || base.contains '\n' then (name, 0)
      else match wordValue? digits.reverse with
      | some layer => (String.ofList base.reverse, layer)
      | none => (name, 0)
  | _ => (name, 0)

/-- The name of the rule that a layer belongs to. -/
def baseName (name : String) : String :=
  (splitLayer name).1

end GrammarKit
