/-
Module: GrammarKit.Proofs.Attempts
Purpose: Which attempts a run makes.  An operator runs its parts one after the other, and what comes of one
  decides which is next.  The relations here follow the operators and say of each part when, where and in which
  context it is tried; they leave out nothing, since what an operator gives depends on these attempts alone.
Main exports: Attempt, Operator.Tries, Recognizer.operator_congr, Program.Within
-/
import Mathlib.Tactic.Common
import GrammarKit.Proofs.Refinement

namespace GrammarKit

/-- An attempt to match a parser: for which rule, in which context, at which place, and what has been counted
before it. -/
structure Attempt where
  parser : ParserId
  rule : String
  context : Context
  input : Slice
  tally : Tally

/-- What comes of an attempt. -/
def Attempt.run (self : ParserId → Recognizer) (a : Attempt) : Outcome (Tree × Slice) × Tally :=
  self a.parser a.rule a.context a.input a.tally

namespace Recognizer

section Tries

variable (self : ParserId → Recognizer) (rule : String)

/-- The attempts of a sequence, with the number of the item that is tried: all items before it have matched. -/
inductive SequenceTries : List Item → Nat → Context → Slice → Tally → Attempt → Prop
  | here {item items c s t} : SequenceTries (item :: items) 0 c s t ⟨item.parser, rule, c, s, t⟩
  | later {item items index c s t tree next t' a} : self item.parser rule c s t = (.matched (tree, next), t') →
      SequenceTries items index (Step.after ⟨item.bind, item.cut, self item.parser⟩ c tree) next t' a →
      SequenceTries (item :: items) (index + 1) c s t a

/-- The attempts of a choice: an alternative is tried after failures that leave a choice. -/
inductive ChoiceTries (e : Enclosed) (s : Slice) : List ParserId → Tally → Attempt → Prop
  | here {id ids t} : ChoiceTries e s (id :: ids) t ⟨id, rule, e.context, s, t⟩
  | later {id ids t f t' a} : self id rule e.context s t = (.failed f, t') → f.isForeign e.own = false →
      ChoiceTries e s ids t'.backtrack a → ChoiceTries e s (id :: ids) t a

/-- The attempts of a repetition that has matched `count` times. -/
inductive RepeatTries (e : Enclosed) (term : ParserId) (max : Nat) :
    Nat → Nat → Slice → Tally → Attempt → Prop
  | here {fuel count s t} : ¬(max ≠ 0 ∧ max ≤ count) →
      RepeatTries e term max (fuel + 1) count s t ⟨term, rule, e.context, s, t⟩
  | later {fuel count s t tree next t' a} : ¬(max ≠ 0 ∧ max ≤ count) →
      self term rule e.context s t = (.matched (tree, next), t') → next.start ≠ s.start →
      RepeatTries e term max fuel (count + 1) next t' a → RepeatTries e term max (fuel + 1) count s t a

section Lists

variable (element separator : ParserId) (style : ListStyle) (cutSeparator : Bool) (e : Enclosed)

/-- The attempts of a pair: its separator, and then its element. -/
inductive PairTries (s : Slice) (t : Tally) : Attempt → Prop
  | separator : PairTries s t
      ⟨separator, rule, (pairInner cutSeparator e t).1.context, s, (pairInner cutSeparator e t).2⟩
  | element {mark next t'} :
      self separator rule (pairInner cutSeparator e t).1.context s (pairInner cutSeparator e t).2
        = (.matched (mark, next), t') →
      PairTries s t ⟨element, rule, (pairInner cutSeparator e t).1.context, next, t'⟩

/-- The attempts for the first slots of a list: its element, and else a pair, if an element may be elided. -/
inductive HeadTries (s : Slice) (t : Tally) : Attempt → Prop
  | element : HeadTries s t ⟨element, rule, e.context, s, t⟩
  | leading {f t' a} : self element rule e.context s t = (.failed f, t') → f.isForeign e.own = false →
      style.leading = true → PairTries self rule element separator cutSeparator e s t' a → HeadTries s t a

/-- The attempts for the further slots of a list: those of one pair after the other. -/
inductive TailTries : Nat → Slice → Tally → Attempt → Prop
  | here {fuel s t a} : PairTries self rule element separator cutSeparator e s t a → TailTries (fuel + 1) s t a
  | later {fuel s t found t' a} :
      pair ⟨self element, self separator, style, cutSeparator⟩ rule e style.trailing s t
        = (.matched (some found), t') →
      (found.element.isNone || found.rest.start == s.start) = false → TailTries fuel found.rest t' a →
      TailTries (fuel + 1) s t a

end Lists

end Tries
end Recognizer

open Recognizer in
/-- The attempts that an operator makes. -/
inductive Operator.Tries (self : ParserId → Recognizer) (rule : String) (c : Context) (s : Slice) (t : Tally) :
    Operator → Attempt → Prop
  | call {target} : Tries self rule c s t (.call target) ⟨target, rule, c, s, t⟩
  | cut {inner} : Tries self rule c s t (.cut inner) ⟨inner, rule, c, s, t⟩
  | seq {items index a} :
      SequenceTries self rule items index (c.enclose (items.any Item.cut) t).1.context s
        (c.enclose (items.any Item.cut) t).2 a →
      Tries self rule c s t (.seq items) a
  | choice {alternatives a} :
      ChoiceTries self rule (c.enclose false t).1 s alternatives (c.enclose false t).2 a →
      Tries self rule c s t (.choice alternatives) a
  | quant {term min max a} :
      RepeatTries self rule (c.enclose false t).1 term max (s.chars.length + 2) 0 s (c.enclose false t).2 a →
      Tries self rule c s t (.quant term min max) a
  | head {element separator style cutSeparator a} :
      HeadTries self rule element separator style cutSeparator (c.enclose false t).1 s (c.enclose false t).2 a →
      Tries self rule c s t (.list element separator style cutSeparator) a
  | tail {element separator style cutSeparator slots next t' a} :
      listHead ⟨self element, self separator, style, cutSeparator⟩ rule (c.enclose false t).1 s
        (c.enclose false t).2 = (.matched (slots, next), t') →
      TailTries self rule element separator style cutSeparator (c.enclose false t).1 (s.chars.length + 2) next t'
        a →
      Tries self rule c s t (.list element separator style cutSeparator) a
  | default {name inner} : c.find? name = none →
      Tries self rule c s t (.backref name (some inner)) ⟨inner, name, c, s, t⟩

/-! ### Attempts decide -/

namespace Recognizer

section Congr

variable {self self' : ParserId → Recognizer} {rule : String}

theorem sequenceFrom_congr {labelled : Bool} {outer own : Option Nat} {items : List Item} (number : Nat)
    {crossed : Bool} {c : Context} {s : Slice} {t : Tally}
    (same : ∀ {index a}, SequenceTries self rule items index c s t a → a.run self' = a.run self) :
    sequenceFrom labelled rule outer own (items.map fun item => ⟨item.bind, item.cut, self' item.parser⟩) number
        crossed c s t
      = sequenceFrom labelled rule outer own (items.map fun item => ⟨item.bind, item.cut, self item.parser⟩) number
        crossed c s t := by
  induction items generalizing number crossed c s t with
  | nil => rfl
  | cons item items ih =>
    have first : self' item.parser rule c s t = self item.parser rule c s t := same .here
    simp only [List.map_cons, sequenceFrom, first]
    cases ran : self item.parser rule c s t with
    | mk outcome t' =>
      cases outcome with
      | matched found =>
        have after : Step.after ⟨item.bind, item.cut, self' item.parser⟩ c found.1
            = Step.after ⟨item.bind, item.cut, self item.parser⟩ c found.1 := rfl
        dsimp only
        rw [after, ih (number + 1) fun tried => same (.later ran tried)]
      | failed f => rfl
      | exhausted => rfl

theorem choiceFrom_congr {tag : String} {e : Enclosed} {s : Slice} {ids : List ParserId} (index : Nat)
    (failures : List Failure) {t : Tally}
    (same : ∀ {a}, ChoiceTries self rule e s ids t a → a.run self' = a.run self) :
    choiceFrom tag rule e s (ids.map self') index failures t
      = choiceFrom tag rule e s (ids.map self) index failures t := by
  induction ids generalizing index failures t with
  | nil => rfl
  | cons id ids ih =>
    have first : self' id rule e.context s t = self id rule e.context s t := same .here
    simp only [List.map_cons, choiceFrom, first]
    cases ran : self id rule e.context s t with
    | mk outcome t' =>
      cases outcome with
      | matched found => rfl
      | failed f =>
        dsimp only
        cases foreign : f.isForeign e.own with
        | true => rfl
        | false => exact ih _ _ fun tried => same (.later ran foreign tried)
      | exhausted => rfl

theorem repeatFrom_congr {e : Enclosed} {term : ParserId} {min max fuel : Nat} (trees : Array Tree) {s : Slice}
    {t : Tally}
    (same : ∀ {a}, RepeatTries self rule e term max fuel trees.size s t a → a.run self' = a.run self) :
    repeatFrom (self' term) rule e min max fuel trees s t
      = repeatFrom (self term) rule e min max fuel trees s t := by
  induction fuel generalizing trees s t with
  | zero => rfl
  | succ fuel ih =>
    rw [repeatFrom, repeatFrom]
    split
    · rfl
    · next more =>
      have first : self' term rule e.context s t = self term rule e.context s t := same (.here more)
      rw [first]
      cases ran : self term rule e.context s t with
      | mk outcome t' =>
        cases outcome with
        | matched found =>
          dsimp only
          split
          · rfl
          · next moved =>
            refine ih _ fun tried => same (.later more ran moved ?_)
            rwa [Array.size_push] at tried
        | failed f => rfl
        | exhausted => rfl

section Lists

variable {element separator : ParserId} (style : ListStyle) {cutSeparator : Bool} {e : Enclosed}

theorem pair_congr (mayElide : Bool) {s : Slice} {t : Tally}
    (same : ∀ {a}, PairTries self rule element separator cutSeparator e s t a → a.run self' = a.run self) :
    pair ⟨self' element, self' separator, style, cutSeparator⟩ rule e mayElide s t
      = pair ⟨self element, self separator, style, cutSeparator⟩ rule e mayElide s t := by
  have opened : (if cutSeparator then e.context.enclose true t else (⟨e.context, e.own, e.own⟩, t))
      = pairInner cutSeparator e t := rfl
  have first := same .separator
  simp only [Attempt.run] at first
  simp only [pair, opened, first]
  cases ran : self separator rule (pairInner cutSeparator e t).1.context s (pairInner cutSeparator e t).2 with
  | mk outcome t' =>
    cases outcome with
    | matched found =>
      have second := same (.element ran)
      simp only [Attempt.run] at second
      simp only [second]
    | failed f => rfl
    | exhausted => rfl

theorem listHead_congr {s : Slice} {t : Tally}
    (same : ∀ {a}, HeadTries self rule element separator style cutSeparator e s t a →
      a.run self' = a.run self) :
    listHead ⟨self' element, self' separator, style, cutSeparator⟩ rule e s t
      = listHead ⟨self element, self separator, style, cutSeparator⟩ rule e s t := by
  have first := same .element
  simp only [Attempt.run] at first
  simp only [listHead, first]
  cases ran : self element rule e.context s t with
  | mk outcome t' =>
    cases outcome with
    | matched found => rfl
    | failed f =>
      dsimp only
      cases foreign : f.isForeign e.own with
      | true => rfl
      | false =>
        cases leading : style.leading with
        | false => rfl
        | true =>
          have pairs := pair_congr style false fun tried => same (.leading ran foreign leading tried)
          simp only [pairs]
    | exhausted => rfl

theorem listTail_congr {fuel : Nat} (slots : Array Tree) {s : Slice} {t : Tally}
    (same : ∀ {a}, TailTries self rule element separator style cutSeparator e fuel s t a →
      a.run self' = a.run self) :
    listTail ⟨self' element, self' separator, style, cutSeparator⟩ rule e fuel slots s t
      = listTail ⟨self element, self separator, style, cutSeparator⟩ rule e fuel slots s t := by
  induction fuel generalizing slots s t with
  | zero => rfl
  | succ fuel ih =>
    have pairs := pair_congr style style.trailing fun tried => same (.here tried)
    simp only [listTail, pairs]
    cases ran : pair ⟨self element, self separator, style, cutSeparator⟩ rule e style.trailing s t with
    | mk outcome t' =>
      cases outcome with
      | matched found =>
        cases found with
        | none => rfl
        | some found =>
          dsimp only
          cases last : found.element.isNone || found.rest.start == s.start with
          | true => rfl
          | false => exact ih _ fun tried => same (.later ran last tried)
      | failed f => rfl
      | exhausted => rfl

end Lists

/-- What an operator gives depends on nothing but what comes of the attempts that it makes. -/
theorem operator_congr (label : Option String) {c : Context} {s : Slice} {t : Tally} {operator : Operator}
    (same : ∀ {a}, operator.Tries self rule c s t a → a.run self' = a.run self) :
    operator.recognizer self' label rule c s t = operator.recognizer self label rule c s t := by
  cases operator with
  | pending name => rfl
  | terminal terminal => rfl
  | call target => exact same .call
  | cut inner => exact same .cut
  | seq items =>
    have force (self : ParserId → Recognizer) :
        (items.map fun item => (⟨item.bind, item.cut, self item.parser⟩ : Step)).any Step.cut
          = items.any Item.cut := by
      simp [Function.comp_def]
    simp only [Operator.recognizer, sequence, force]
    rw [sequenceFrom_congr 0 fun tried => same (.seq tried)]
  | choice alternatives => exact choiceFrom_congr 0 [] fun tried => same (.choice tried)
  | list element separator style cutSeparator =>
    have head := listHead_congr style fun tried => same (.head tried)
    simp only [Operator.recognizer, list, head]
    cases ran : listHead ⟨self element, self separator, style, cutSeparator⟩ rule (c.enclose false t).1 s
        (c.enclose false t).2 with
    | mk outcome t' =>
      cases outcome with
      | matched found =>
        dsimp only
        rw [listTail_congr style found.1.toArray fun tried => same (.tail ran tried)]
      | failed f => rfl
      | exhausted => rfl
  | quant term min max =>
    simp only [Operator.recognizer, repetition]
    rw [repeatFrom_congr #[] fun tried => same (.quant tried)]
  | backref name default =>
    simp only [Operator.recognizer, backref]
    cases bound : c.find? name with
    | some tree => rfl
    | none =>
      cases default with
      | none => rfl
      | some inner =>
        have first := same (.default bound)
        simp only [Attempt.run] at first
        simp only [Option.map_some, first]

end Congr
end Recognizer

/-! ### Attempts inside attempts -/

namespace Program

/-- The attempts that a run of a program makes directly inside another one, in a recursion of the given depth. -/
def Tries (p : Program) (depth : Nat) (a b : Attempt) : Prop :=
  ∃ parser, p.parsers[a.parser]? = some parser ∧
    parser.operator.Tries (p.recognizer depth) (parser.label.getD a.rule) a.context a.input a.tally.attempt b

/-- The attempts that a run of a program makes inside another one, at whatever level: an attempt to which `depth`
levels are left leads to one to which `depth'` are left. -/
inductive Within (p : Program) : Nat → Attempt → Nat → Attempt → Prop
  | refl {depth a} : Within p depth a depth a
  | step {depth depth' a b last} : p.Tries depth a b → Within p depth b depth' last →
      Within p (depth + 1) a depth' last

theorem run_succ (p : Program) {depth : Nat} {a : Attempt} {parser : Parser}
    (here : p.parsers[a.parser]? = some parser) :
    a.run (p.recognizer (depth + 1))
      = parser.operator.recognizer (p.recognizer depth) parser.label (parser.label.getD a.rule) a.context a.input
          a.tally.attempt := by
  simp only [Attempt.run, recognizer, here]

end Program
end GrammarKit
