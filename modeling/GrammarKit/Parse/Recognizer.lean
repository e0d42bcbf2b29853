/-
Module: GrammarKit.Parse.Recognizer
Purpose: What a term does to the input, one operator at a time.  A recognizer takes a slice and gives a
  tree and what is left of the slice, or a failure; slices do not change, so another attempt just starts
  from the slice again.

  Cutpoints work by generations.  A failure carries the generation that was active where it happened.
  An operator that tries alternatives opens a generation of its own, if one is active at all, and goes on
  only after failures of that generation or of none; any other failure passes through.  A sequence with a
  cutpoint always opens a generation: until the cutpoint is crossed, failures of that generation are
  handed to the one around it, and afterwards they keep it, so that nobody outside goes on after them.
Main exports: Context, Tally, Outcome, Recognizer, and one recognizer for each operator
-/
import GrammarKit.Error
import GrammarKit.Regex
import GrammarKit.Tree.DelimitedList

namespace GrammarKit

/-- What surrounds a match: the trees that names are bound to, the latest first, and the active
generation of cutpoints. -/
structure Context where
  bindings : List (String × Tree) := []
  generation : Option Nat := none
deriving Inhabited

/-- What is counted through a whole parse, whatever attempts are given up. -/
structure Tally where
  /-- The number of generations opened, which is also the next one to open. -/
  generations : Nat := 0
  attempts : Nat := 0
  backtracks : Nat := 0
deriving Repr, Inhabited, DecidableEq

/-- Count an attempt. -/
def Tally.attempt (t : Tally) : Tally :=
  { t with attempts := t.attempts + 1 }

/-- Count a return to an earlier place of the input. -/
def Tally.backtrack (t : Tally) : Tally :=
  { t with backtracks := t.backtracks + 1 }

/-- How an attempt ends. -/
inductive Outcome (α : Type) where
  | matched (value : α)
  | failed (failure : Failure)
  /-- The recursion went deeper than any parse that takes input can go. -/
  | exhausted
deriving Inhabited

/-- Recognizers.  They are given the name of the rule they work for, which failures mention. -/
abbrev Recognizer := String → Context → Slice → Tally → Outcome (Tree × Slice) × Tally

namespace Context

/-- The tree that a name is bound to. -/
def find? (c : Context) (name : String) : Option Tree :=
  Table.lookup name c.bindings

/-- Bind a name. -/
def bind (c : Context) (name : String) (tree : Tree) : Context :=
  { c with bindings := (name, tree) :: c.bindings }

end Context

/-- A context inside an operator: the generation around the operator and the one of its own. -/
structure Enclosed where
  context : Context
  outer : Option Nat
  own : Option Nat
deriving Inhabited

/-- Open a generation if one is active or if it is forced. -/
def Context.enclose (c : Context) (force : Bool) (t : Tally) : Enclosed × Tally :=
  if c.generation.isNone && !force then (⟨c, none, none⟩, t)
  else
    (⟨{ c with generation := some t.generations }, c.generation, some t.generations⟩,
      { t with generations := t.generations + 1 })

/-- Whether a failure belongs to a generation other than the given one, so that it must pass through. -/
def Failure.isForeign (f : Failure) (own : Option Nat) : Bool :=
  f.generation.isSome && f.generation != own

namespace Recognizer

/-! ### Terminals -/

/-- Match a terminal. -/
def terminal (regex : Regex) (expected : String) : Recognizer := fun rule c input t =>
  match regex.match? input with
  | some m => (.matched (.leaf m.output, m.rest), t)
  | none => (.failed (.mk rule (.terminal expected input.chars) input.start c.generation []), t)

/-! ### Sequences -/

/-- An item of a sequence: the name to bind its tree to, whether it is a cutpoint, and what it does. -/
structure Step where
  bind : Option String
  cut : Bool
  run : Recognizer
deriving Inhabited

/-- The context after an item. -/
def Step.after (s : Step) (c : Context) (tree : Tree) : Context :=
  match s.bind with
  | some name => c.bind name tree
  | none => c

/-- The failure of a sequence from that of an item.  A labelled sequence shows up in the tree of failures,
others pass on what they get. -/
def sequenceFailure (labelled : Bool) (rule : String) (index offset : Nat) (f : Failure) : Failure :=
  if labelled then .mk rule (.element index) offset f.generation [f] else f

/-- Match the items from number `index` on.  `crossed` says that a cutpoint has matched. -/
def sequenceFrom (labelled : Bool) (rule : String) (outer own : Option Nat) :
    List Step → Nat → Bool → Context → Slice → Tally → Outcome (List Tree × Slice) × Tally
  | [], _, _, _, rest, t => (.matched ([], rest), t)
  | s :: steps, index, crossed, c, rest, t =>
      match s.run rule c rest t with
      | (.matched (tree, next), t) =>
          match sequenceFrom labelled rule outer own steps (index + 1) (crossed || s.cut)
              (s.after c tree) next t with
          | (.matched (trees, next), t) => (.matched (tree :: trees, next), t)
          | (.failed f, t) => (.failed f, t)
          | (.exhausted, t) => (.exhausted, t)
      | (.failed f, t) =>
          let f := if !crossed && f.generation == own then f.retag outer else f
          (.failed (sequenceFailure labelled rule index rest.start f), t)
      | (.exhausted, t) => (.exhausted, t)

/-- Match all items one after the other. -/
def sequence (label : Option String) (steps : List Step) : Recognizer := fun rule c input t =>
  let (e, t) := c.enclose (steps.any Step.cut) t
  match sequenceFrom label.isSome rule e.outer e.own steps 0 false e.context input t with
  | (.matched (trees, rest), t) => (.matched (.node (label.getD Tree.seqTag) none trees, rest), t)
  | (.failed f, t) => (.failed f, t)
  | (.exhausted, t) => (.exhausted, t)

/-! ### Choices -/

/-- The greatest offset that failed attempts reached. -/
def furthest (start : Nat) (failures : List Failure) : Nat :=
  failures.foldl (fun offset f => max offset f.furthest) start

/-- Try the alternatives from number `index` on.  `failures` holds those of the alternatives before, the
last one first. -/
def choiceFrom (tag rule : String) (e : Enclosed) (input : Slice) :
    List Recognizer → Nat → List Failure → Tally → Outcome (Tree × Slice) × Tally
  | [], _, failures, t =>
      let failures := failures.reverse
      (.failed (.mk rule .noAlternative (furthest input.start failures) e.outer failures), t)
  | run :: alternatives, index, failures, t =>
      match run rule e.context input t with
      | (.matched (tree, rest), t) => (.matched (.node tag (some (.choice index)) [tree], rest), t)
      | (.failed f, t) =>
          if f.isForeign e.own then (.failed f, t)
          else choiceFrom tag rule e input alternatives (index + 1) (f :: failures) t.backtrack
      | (.exhausted, t) => (.exhausted, t)

/-- Match the first alternative that matches. -/
def choice (label : Option String) (alternatives : List Recognizer) : Recognizer :=
  fun rule c input t =>
    let (e, t) := c.enclose false t
    choiceFrom (label.getD Tree.choiceTag) rule e input alternatives 0 [] t

/-! ### Repetitions -/

/-- The trees of a repetition that has come to a match without input.  It would match the same way for
ever, so it counts as often as is still required, and at least once. -/
def padRepetitions (min : Nat) (trees : Array Tree) (tree : Tree) : Array Tree :=
  trees ++ Array.replicate (max (trees.size + 1) min - trees.size) tree

/-- Match as often as possible, but not more often than `max`, where zero is no bound.  The result holds
the trees, what is left, and the failure that ended the repetition, if one did.  Fuel bounds the number of
matches that take input. -/
def repeatFrom (run : Recognizer) (rule : String) (e : Enclosed) (min max : Nat) :
    Nat → Array Tree → Slice → Tally → Outcome (List Tree × Slice × Option Failure) × Tally
  | 0, _, _, t => (.exhausted, t)
  | fuel + 1, trees, rest, t =>
      if max ≠ 0 ∧ max ≤ trees.size then (.matched (trees.toList, rest, none), t)
      else
        match run rule e.context rest t with
        | (.matched (tree, next), t) =>
            if next.start = rest.start then
              (.matched ((padRepetitions min trees tree).toList, next, none), t)
            else repeatFrom run rule e min max fuel (trees.push tree) next t
        | (.failed f, t) =>
            if f.isForeign e.own then (.failed f, t)
            else (.matched (trees.toList, rest, some f), t.backtrack)
        | (.exhausted, t) => (.exhausted, t)

/-- Match a term repeatedly. -/
def repetition (label : Option String) (run : Recognizer) (min max : Nat) : Recognizer :=
  fun rule c input t =>
    let (e, t) := c.enclose false t
    match repeatFrom run rule e min max (input.chars.length + 2) #[] input t with
    | (.matched (trees, rest, last), t) =>
        if min ≤ trees.length then (.matched (.node (label.getD Tree.quantTag) none trees, rest), t)
        else
          (.failed (.mk rule (.tooFewRepetitions min trees.length) rest.start e.outer last.toList), t)
    | (.failed f, t) => (.failed f, t)
    | (.exhausted, t) => (.exhausted, t)

/-! ### Lists -/

/-- The parts of a list. -/
structure ListParts where
  element : Recognizer
  separator : Recognizer
  style : ListStyle
  /-- Whether the separator is a cutpoint. -/
  cutSeparator : Bool
deriving Inhabited

/-- A separator and the element after it, which may be left out at the end of some lists. -/
structure Pair where
  separator : Tree
  element : Option Tree
  rest : Slice
deriving Inhabited

/-- Match a separator and an element, or nothing if there is no further pair.  A separator that is a
cutpoint commits to the element after it. -/
def pair (parts : ListParts) (rule : String) (e : Enclosed) (mayElide : Bool) (input : Slice) (t : Tally) :
    Outcome (Option Pair) × Tally :=
  let (inner, t) :=
    if parts.cutSeparator then e.context.enclose true t else (⟨e.context, e.own, e.own⟩, t)
  match parts.separator rule inner.context input t with
  | (.matched (separator, afterSeparator), t) =>
      match parts.element rule inner.context afterSeparator t with
      | (.matched (element, rest), t) => (.matched (some ⟨separator, some element, rest⟩), t)
      | (.failed f, t) =>
          let elided := Outcome.matched (some ⟨separator, none, afterSeparator⟩)
          if parts.cutSeparator then
            if mayElide && f.generation == inner.own then (elided, t) else (.failed f, t)
          else if f.isForeign e.own then (.failed f, t)
          else if mayElide then (elided, t)
          else (.matched none, t)
      | (.exhausted, t) => (.exhausted, t)
  | (.failed f, t) =>
      let f := if f.generation == inner.own then f.retag inner.outer else f
      if f.isForeign e.own then (.failed f, t) else (.matched none, t)
  | (.exhausted, t) => (.exhausted, t)

/-- The first slots of a list: an element, or an elided one with a separator and an element after it. -/
def listHead (parts : ListParts) (rule : String) (e : Enclosed) (input : Slice) (t : Tally) :
    Outcome (List Tree × Slice) × Tally :=
  match parts.element rule e.context input t with
  | (.matched (tree, rest), t) => (.matched ([tree], rest), t)
  | (.failed f, t) =>
      let none := Outcome.failed (.mk rule .emptyList input.start e.outer [f])
      if f.isForeign e.own then (.failed f, t)
      else if !parts.style.leading then (none, t)
      else
        match pair parts rule e false input t with
        | (.matched (some ⟨separator, some element, rest⟩), t) =>
            (.matched ([.elided, separator, element], rest), t.backtrack)
        | (.matched _, t) => (none, t)
        | (.failed f, t) => (.failed f, t)
        | (.exhausted, t) => (.exhausted, t)
  | (.exhausted, t) => (.exhausted, t)

/-- The further slots of a list.  Fuel bounds the number of pairs that take input. -/
def listTail (parts : ListParts) (rule : String) (e : Enclosed) :
    Nat → Array Tree → Slice → Tally → Outcome (List Tree × Slice) × Tally
  | 0, _, _, t => (.exhausted, t)
  | fuel + 1, slots, rest, t =>
      match pair parts rule e parts.style.trailing rest t with
      | (.matched none, t) => (.matched (slots.toList, rest), t.backtrack)
      | (.matched (some p), t) =>
          let slots := (slots.push p.separator).push (p.element.getD .elided)
          if p.element.isNone || p.rest.start == rest.start then (.matched (slots.toList, p.rest), t)
          else listTail parts rule e fuel slots p.rest t
      | (.failed f, t) => (.failed f, t)
      | (.exhausted, t) => (.exhausted, t)

/-- Match elements with separators between them. -/
def list (label : Option String) (parts : ListParts) : Recognizer := fun rule c input t =>
  let (e, t) := c.enclose false t
  match listHead parts rule e input t with
  | (.matched (slots, rest), t) =>
      match listTail parts rule e (input.chars.length + 2) slots.toArray rest t with
      | (.matched (slots, rest), t) =>
          (.matched (.ofSlots (label.getD Tree.listTag) parts.style.assoc slots, rest), t)
      | (.failed f, t) => (.failed f, t)
      | (.exhausted, t) => (.exhausted, t)
  | (.failed f, t) => (.failed f, t)
  | (.exhausted, t) => (.exhausted, t)

/-! ### Back references -/

/-- The part of the input before what is left of it. -/
def consumed (input rest : Slice) : Slice :=
  input.takeChars (input.chars.length - rest.chars.length)

/-- Match the text that a name is bound to, or the default if it is not bound. -/
def backref (name : String) (default : Option Recognizer) : Recognizer := fun _ c input t =>
  match c.find? name with
  | some bound =>
      match input.splitLiteral? bound.chars with
      | some (found, rest) => (.matched (.leaf found, rest), t)
      | none =>
          (.failed (.mk name (.backrefNotMatched bound.chars input.chars) input.start c.generation []), t)
  | none =>
      match default with
      | some run =>
          match run name c input t with
          | (.matched (_, rest), t) => (.matched (.leaf (consumed input rest), rest), t)
          | (.failed f, t) => (.failed f, t)
          | (.exhausted, t) => (.exhausted, t)
      | none => (.failed (.mk name .backrefNotFound input.start c.generation []), t)

end Recognizer
end GrammarKit
