/-
Module: GrammarKit.Generic.Cardinality
Purpose: How often each field can occur in a match of a term.  A field that occurs at most once holds one
  value and any other a list; the term alone decides this, so a rule always gives the same fields.
Main exports: Cardinality, Counters, Counters.ofTerm
-/
import GrammarKit.Generic.Node
import GrammarKit.Grammar.Layer

namespace GrammarKit.Generic

/-- From `lo` times up to `hi` times, where two stands for any number from two on. -/
structure Cardinality where
  lo : Nat
  hi : Nat
deriving Repr, Inhabited, DecidableEq

namespace Cardinality

/-- The bounds with their upper one cut off. -/
def bounded (lo hi : Nat) : Cardinality :=
  ⟨lo, min hi 2⟩

def never : Cardinality := ⟨0, 0⟩
def once : Cardinality := ⟨1, 1⟩
def zeroOrMore : Cardinality := ⟨0, 2⟩
def oneOrMore : Cardinality := ⟨1, 2⟩

/-- Both the one and the other. -/
def add (a b : Cardinality) : Cardinality :=
  bounded (a.lo + b.lo) (a.hi + b.hi)

/-- The one as often as the other says. -/
def mul (a b : Cardinality) : Cardinality :=
  bounded (a.lo * b.lo) (a.hi * b.hi)

/-- Either the one or the other. -/
def union (a b : Cardinality) : Cardinality :=
  ⟨min a.lo b.lo, max a.hi b.hi⟩

/-- The cardinality of a repetition, where a `max` of zero is no bound. -/
def ofQuant (min max : Nat) : Cardinality :=
  bounded min (if max = 0 then 2 else max)

/-- Whether there is at most one, and one is possible. -/
def isSingle (c : Cardinality) : Bool :=
  c == ⟨1, 1⟩ || c == ⟨0, 1⟩

end Cardinality

/-- How often each field can occur. -/
abbrev Counters := Table Cardinality

namespace Counters

/-- How often a field can occur. -/
def of (counters : Counters) (field : String) : Cardinality :=
  (counters.get? field).getD .never

/-- Count further occurrences of a field. -/
def count (counters : Counters) (field : String) (c : Cardinality) : Counters :=
  counters.insert field ((counters.of field).add c)

/-- Whether a field holds one value. -/
def isSingle (counters : Counters) (field : String) : Bool :=
  (counters.of field).isSingle

/-- The fields that hold lists. -/
def listFields (counters : Counters) : List String :=
  (counters.entries.filter fun (_, c) => !c.isSingle).map (·.1)

/-- Count what a choice between alternatives gives, each counted alone. -/
def countChoice (counters : Counters) (parent : Cardinality) (alternatives : List Counters) : Counters :=
  (alternatives.flatMap Table.names).eraseDups.foldl (fun counters field =>
    match alternatives.map (·.of field) with
    | [] => counters
    | c :: cs => counters.count field (parent.mul (cs.foldl Cardinality.union c))) counters

mutual
/-- Count the fields of a term that occurs as often as `parent` says. -/
def countTerm (parent : Cardinality) (counters : Counters) : Term → Counters
  | .literal _ => counters.count "" parent
  | .regex _ => counters.count "" parent
  | .rule name => counters.count (baseName name) parent
  | .backref name _ => counters.count name parent
  | .capture name _ => counters.count name parent
  | .seq ts => countAll parent counters ts
  | .choice ts => (counters.count choiceField .zeroOrMore).countChoice parent (countEach ts)
  | .stack ts => (counters.count choiceField .zeroOrMore).countChoice parent (countEach ts)
  | .list element separator _ =>
      let counters := counters.count listField .zeroOrMore
      let counters := countTerm (parent.mul .oneOrMore) counters element
      countTerm (parent.mul .zeroOrMore) counters separator
  | .quant t min max =>
      countTerm (parent.mul (.ofQuant min max)) (counters.count countField .zeroOrMore) t
  | .cut t => countTerm parent counters t
  | .withRules t _ => countTerm parent counters t

/-- Count the fields of several terms one after the other. -/
def countAll (parent : Cardinality) (counters : Counters) : List Term → Counters
  | [] => counters
  | t :: ts => countAll parent (countTerm parent counters t) ts

/-- Count the fields of each of several terms alone. -/
def countEach : List Term → List Counters
  | [] => []
  | t :: ts => countTerm .once Table.empty t :: countEach ts
end

/-- How often each field can occur in a match of a term. -/
def ofTerm (t : Term) : Counters :=
  countTerm .once Table.empty t

/-- A branch in which the fields that hold lists are there already. -/
def emptyBranch (counters : Counters) : Branch :=
  ⟨counters.listFields.map (·, .many [])⟩

end Counters
end GrammarKit.Generic
