/-
Module: GrammarKit.Program
Purpose: Compiled grammars.  A program is a list of parsers that refer to each other by index, so that
  rules may call each other in circles; each rule has a slot that calls the parser of its body.
Main exports: Terminal, Operator, Parser, Program
-/
import GrammarKit.Regex
import GrammarKit.Term

namespace GrammarKit

/-- Parsers are named by their index in the program. -/
abbrev ParserId := Nat

/-- A terminal: what it matches, how it is written, and whether it is known to match without input. -/
structure Terminal where
  regex : Regex
  expected : String
  nullable : Bool
deriving Inhabited, DecidableEq

/-- An item of a sequence: its parser, the name to bind its tree to, and whether it is a cutpoint. -/
structure Item where
  parser : ParserId
  bind : Option String
  cut : Bool
deriving Repr, Inhabited, DecidableEq

/-- What a parser does. -/
inductive Operator where
  /-- The slot of a rule whose body has not been made yet. -/
  | pending (rule : String)
  | terminal (terminal : Terminal)
  | call (target : ParserId)
  | seq (items : List Item)
  | choice (alternatives : List ParserId)
  /-- A list; `cutSeparator` says that its separator is a cutpoint. -/
  | list (element separator : ParserId) (style : ListStyle) (cutSeparator : Bool)
  | quant (term : ParserId) (min max : Nat)
  | backref (name : String) (default : Option ParserId)
  | cut (inner : ParserId)
deriving Inhabited, DecidableEq

/-- A parser: the label of the tree that it makes, if it has one, and what it does. -/
structure Parser where
  label : Option String
  operator : Operator
deriving Inhabited, DecidableEq

/-- A compiled grammar. -/
structure Program where
  parsers : Array Parser
  /-- The slots of the rules that a parse can start with. -/
  rules : Table ParserId
  /-- The slots of all rules, local ones included, with their names, in the order in which they were
  made. -/
  slots : List (ParserId × String)
deriving Inhabited, DecidableEq

/-- What the parser with a given index does. -/
def Program.operator? (p : Program) (id : ParserId) : Option Operator :=
  p.parsers[id]?.map Parser.operator

end GrammarKit
