/-
Module: GrammarKit.Spelling.Term
Purpose: How terms and grammars are written, with as few brackets as the binding strengths allow.
Main exports: Term.spell, Grammar.spell
-/
import GrammarKit.Term
import GrammarKit.Spelling.Literal
import GrammarKit.Spelling.RegexBody

namespace GrammarKit

namespace Strength

/-- Layers of a stack bind the loosest. -/
def stack : Nat := 0

/-- Alternatives of a choice. -/
def choice : Nat := 1

/-- Items of a sequence, and terms with rules of their own. -/
def seq : Nat := 2

/-- Repetitions, lists and captures. -/
def suffix : Nat := 3

/-- Names, literals, regular expressions, back references and the empty sequence. -/
def atom : Nat := 4

end Strength

namespace Term

/-- How strongly a term binds.  A cutpoint is not written, so it binds as its term does. -/
def strength : Term → Nat
  | stack _ => Strength.stack
  | choice _ => Strength.choice
  | seq [] => Strength.atom
  | seq _ => Strength.seq
  | withRules _ _ => Strength.seq
  | quant _ _ _ => Strength.suffix
  | list _ _ _ => Strength.suffix
  | capture _ _ => Strength.suffix
  | cut t => t.strength
  | rule _ => Strength.atom
  | literal _ => Strength.atom
  | regex _ => Strength.atom
  | backref _ _ => Strength.atom

/-- Put brackets around a term that binds less strongly than its place requires. -/
def bracket (required : Nat) (t : Term) (text : String) : String :=
  if t.strength < required then "(" ++ text ++ ")" else text

/-- How a repetition is written after its term. -/
def quantSuffix (min max : Nat) : String :=
  match min, max with
  | 0, 1 => "?"
  | 0, 0 => "*"
  | 1, 0 => "+"
  | min, max =>
      "\x7b" ++ (if min > 0 then toString min else "") ++ "," ++ (if max > 0 then toString max else "") ++ "\x7d"

/-- Whether a term is a capture. -/
def isCapture : Term → Bool
  | capture _ _ => true
  | _ => false

mutual
/-- A term as it is written in grammars. -/
def spell : Term → String
  | rule name => name
  | literal text => Spelling.quoteLiteral text
  | regex pattern => "/\x7b" ++ Spelling.escapeRegexBody pattern ++ "\x7d"
  | seq [] => "()"
  | seq (t :: ts) => String.intercalate " " (spellAll Strength.suffix (t :: ts))
  | choice ts => String.intercalate " | " (spellAll Strength.seq ts)
  | stack ts => String.intercalate " > " (spellAll Strength.choice ts)
  | capture name t => name ++ "=" ++ bracket Strength.atom t (spell t)
  | quant t min max => bracket Strength.suffix t (spell t) ++ quantSuffix min max
  | list element separator style =>
      bracket Strength.suffix element (spell element) ++ style.assoc.operator
        ++ (if style.leading then "," else "")
        ++ bracket (if separator.isCapture then Strength.suffix else Strength.atom) separator
            (spell separator)
        ++ (if style.trailing then "," else "")
  | backref name default => "%" ++ name ++ spellDefault default
  | cut t => spell t
  | withRules t rules =>
      (match t with
        | seq _ => spell t
        | _ => bracket Strength.suffix t (spell t))
        ++ " \x7b " ++ spellLocal rules ++ "\x7d"

/-- Terms as they are written in places of a given strength. -/
def spellAll (required : Nat) : List Term → List String
  | [] => []
  | t :: ts => bracket required t (spell t) :: spellAll required ts

/-- The default of a back reference. -/
def spellDefault : Option Term → String
  | none => ""
  | some t => "=" ++ bracket Strength.atom t (spell t)

/-- The rules of a term, on one line. -/
def spellLocal : Table Term → String
  | ⟨entries⟩ => spellEntries "; " entries

/-- Rules, each with what ends it. -/
def spellEntries (ending : String) : List (String × Term) → String
  | [] => ""
  | (name, t) :: entries => name ++ " -> " ++ spell t ++ ending ++ spellEntries ending entries
end

end Term

/-- A grammar as it is written: one rule a line. -/
def Grammar.spell (g : Grammar) : String :=
  Term.spellEntries ";\n" g.entries

end GrammarKit
