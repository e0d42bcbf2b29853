/-
Module: GrammarKit.Proofs.Finality
Purpose: A cutpoint that has been crossed is final.  A run fails with the generation that was active where it
  began or with one that it has opened itself, and in the second case everything around it fails at once with
  the same generation.  Behind a cutpoint of a sequence all failures are of the second kind.
Main exports: Opened, Operator.Tries.carries, Program.Within.carries, Parsers.cutpoints_final
-/
import Mathlib.Tactic.Common
import GrammarKit.Proofs.Adequacy
import GrammarKit.Proofs.Attempts
import GrammarKit.Proofs.Layout
import GrammarKit.Proofs.UncutGrammars

namespace GrammarKit

/-! ### Generations that a run opens -/

/-- A generation that was opened between two counts. -/
def Opened (t t' : Tally) (generation : Option Nat) : Prop :=
  ∃ g, generation = some g ∧ t.generations ≤ g ∧ g < t'.generations

section Judged

variable {α β : Type} {view : α → β} {generation : Option Nat} {least : Nat} {verdict : Verdict β}

/-- Generations are only added, by matches and by failures. -/
theorem Judged.le_of_matched {value : α} {t : Tally}
    (h : Judged view generation least (.matched value, t) verdict) : least ≤ t.generations := by
  cases h with
  | matched le => exact le

theorem Judged.le_of_failed {f : Failure} {t : Tally} (h : Judged view generation least (.failed f, t) verdict) :
    least ≤ t.generations := by
  cases h with
  | failed le same => exact le
  | fatal same le lt => exact Nat.le_of_lt (Nat.lt_of_le_of_lt le lt)

/-- A failure belongs to the generation outside or to one that has been opened inside. -/
theorem Judged.generation_of_failed {f : Failure} {t t' : Tally}
    (h : Judged view generation t.generations (.failed f, t') verdict) :
    f.generation = generation ∨ Opened t t' f.generation := by
  cases h with
  | failed le same => exact .inl same
  | fatal same le lt => exact .inr ⟨_, same, le, lt⟩

end Judged

/-! ### What is passed on -/

namespace Recognizer

/-- An attempt that is made in the course of something that began with the count `t` and comes to `result`.  The
generation that is active for it has been opened by then, and if it fails with a generation that is opened later
still, then the result is a failure of the same generation, and nothing has been counted since the attempt. -/
structure Carries {α : Type} (runs : ParserId → Recognizer) (t : Tally) (a : Attempt)
    (result : Outcome α × Tally) : Prop where
  knows : a.tally.Knows a.context.generation
  le : t.generations ≤ a.tally.generations
  passes : ∀ ⦃f t' g⦄, a.run runs = (.failed f, t') → f.generation = some g → a.tally.generations ≤ g →
    ∃ f', result = (.failed f', t') ∧ f'.generation = some g

section Carries

variable {α β : Type} {self : ParserId → Recognizer} {t : Tally} {a : Attempt} {result : Outcome α × Tally}

/-- What began earlier has the attempt in its course too, if it passes on the failure. -/
theorem Carries.within (h : Carries self t a result) {earlier : Tally}
    (le : earlier.generations ≤ t.generations) {result' : Outcome β × Tally}
    (passes : ∀ ⦃f t'⦄, result = (.failed f, t') →
      ∃ f', result' = (.failed f', t') ∧ f'.generation = f.generation) :
    Carries self earlier a result' := by
  refine ⟨h.knows, Nat.le_trans le h.le, ?_⟩
  intro f t' g ran same above
  obtain ⟨f', here, same'⟩ := h.passes ran same above
  obtain ⟨f'', there, same''⟩ := passes here
  exact ⟨f'', there, same''.trans same'⟩

/-- What began earlier and comes to the same result has the attempt in its course too. -/
theorem Carries.earlier (h : Carries self t a result) {earlier : Tally}
    (le : earlier.generations ≤ t.generations) : Carries self earlier a result :=
  h.within le fun f _ here => ⟨f, here, rfl⟩

end Carries

section Operators

variable {self : ParserId → Recognizer} {judge : ParserId → Judge}
  (refines : ∀ id, (self id).Refines (judge id)) {rule : String} {a : Attempt}
include refines

theorem Refines.le_of_matched {id : ParserId} {c : Context} {s : Slice} {t t' : Tally} {found : Tree × Slice}
    (knows : t.Knows c.generation) (ran : self id rule c s t = (.matched found, t')) :
    t.generations ≤ t'.generations :=
  Judged.le_of_matched (ran ▸ refines id knows)

theorem Refines.le_of_failed {id : ParserId} {c : Context} {s : Slice} {t t' : Tally} {f : Failure}
    (knows : t.Knows c.generation) (ran : self id rule c s t = (.failed f, t')) :
    t.generations ≤ t'.generations :=
  Judged.le_of_failed (ran ▸ refines id knows)

/-! #### Sequences -/

omit refines in
@[simp] theorem generation_after (step : Step) (c : Context) (tree : Tree) :
    (step.after c tree).generation = c.generation := by
  rw [Step.after]
  split <;> rfl

omit refines in
/-- A sequence leaves it at one generation. -/
theorem SequenceTries.generation {items : List Item} {index : Nat} {c : Context} {s : Slice} {t : Tally}
    (tried : SequenceTries self rule items index c s t a) : a.context.generation = c.generation := by
  induction tried with
  | here => rfl
  | later ran tried ih => exact ih.trans (generation_after _ _ _)

theorem SequenceTries.carries {labelled : Bool} {outer : Option Nat} {items : List Item} {index : Nat}
    (number : Nat) (crossed : Bool) {c : Context} {s : Slice} {t : Tally}
    (tried : SequenceTries self rule items index c s t a) (knows : t.Knows c.generation) :
    Carries self t a (sequenceFrom labelled rule outer c.generation
      (items.map fun item => ⟨item.bind, item.cut, self item.parser⟩) number crossed c s t) := by
  induction tried generalizing number crossed with
  | @here item items c s t =>
    refine ⟨knows, Nat.le_refl _, ?_⟩
    intro f t' g ran same above
    have ran : self item.parser rule c s t = (.failed f, t') := ran
    have other : (f.generation == c.generation) = false := by
      rw [same, beq_eq_false_iff_ne]
      exact knows.ne above
    simp only [List.map_cons, sequenceFrom, ran, other, Bool.and_false, Bool.false_eq_true, if_false]
    exact ⟨_, rfl, by rw [generation_sequenceFailure, same]⟩
  | @later item items index c s t tree next t' a ran tried ih =>
    have le := Refines.le_of_matched refines knows ran
    have inside : (Step.after ⟨item.bind, item.cut, self item.parser⟩ c tree).generation = c.generation :=
      generation_after _ _ _
    have others := ih (number + 1) (crossed || item.cut) (inside.symm ▸ knows.mono le)
    rw [inside] at others
    apply others.within le
    intro f t'' failed
    simp only [List.map_cons, sequenceFrom, ran, failed]
    exact ⟨f, rfl, rfl⟩

omit refines in
/-- Behind a cutpoint, a sequence hands no failure to the generation around it. -/
theorem SequenceTries.fails_behind {labelled : Bool} {outer own : Option Nat} {items : List Item} {index : Nat}
    (number : Nat) (crossed : Bool) {c : Context} {s : Slice} {t : Tally}
    (tried : SequenceTries self rule items index c s t a)
    (behind : (crossed || (items.take index).any Item.cut) = true) {f : Failure} {t' : Tally}
    (ran : a.run self = (.failed f, t')) :
    ∃ f', sequenceFrom labelled rule outer own
        (items.map fun item => ⟨item.bind, item.cut, self item.parser⟩) number crossed c s t = (.failed f', t') ∧
      f'.generation = f.generation := by
  induction tried generalizing number crossed with
  | @here item items c s t =>
    have ran : self item.parser rule c s t = (.failed f, t') := ran
    obtain rfl : crossed = true := by simpa using behind
    simp only [List.map_cons, sequenceFrom, ran, Bool.not_true, Bool.false_and, Bool.false_eq_true, if_false]
    exact ⟨_, rfl, generation_sequenceFailure _ _ _ _ _⟩
  | @later item items index c s t tree next t'' a first tried ih =>
    have behind : ((crossed || item.cut) || (items.take index).any Item.cut) = true := by
      rw [Bool.or_assoc]
      exact behind
    obtain ⟨f', failed, same⟩ := ih (number + 1) (crossed || item.cut) behind ran
    simp only [List.map_cons, sequenceFrom, first, failed]
    exact ⟨f', rfl, same⟩

/-! #### Choices and repetitions -/

section Enclosed

variable {e : Enclosed} (own : e.context.generation = e.own)
include own

theorem ChoiceTries.carries {tag : String} {ids : List ParserId} (index : Nat) (failures : List Failure)
    {s : Slice} {t : Tally} (tried : ChoiceTries self rule e s ids t a) (knows : t.Knows e.own) :
    Carries self t a (choiceFrom tag rule e s (ids.map self) index failures t) := by
  induction tried generalizing index failures with
  | @here id ids t =>
    refine ⟨own.symm ▸ knows, Nat.le_refl _, ?_⟩
    intro f t' g ran same above
    have ran : self id rule e.context s t = (.failed f, t') := ran
    simp only [List.map_cons, choiceFrom, ran, Failure.isForeign_later knows same above, if_true]
    exact ⟨f, rfl, same⟩
  | @later id ids t f t' a ran choice tried ih =>
    have le := Refines.le_of_failed refines (own.symm ▸ knows) ran
    apply (ih (index + 1) (f :: failures) (knows.mono le)).within le
    intro f' t'' failed
    simp only [List.map_cons, choiceFrom, ran, choice, Bool.false_eq_true, if_false, failed]
    exact ⟨f', rfl, rfl⟩

theorem RepeatTries.carries {term : ParserId} {min max fuel : Nat} (trees : Array Tree) {s : Slice} {t : Tally}
    (tried : RepeatTries self rule e term max fuel trees.size s t a) (knows : t.Knows e.own) :
    Carries self t a (repeatFrom (self term) rule e min max fuel trees s t) := by
  induction fuel generalizing trees s t with
  | zero => cases tried
  | succ fuel ih =>
    cases tried with
    | here more =>
      refine ⟨own.symm ▸ knows, Nat.le_refl _, ?_⟩
      intro f t' g ran same above
      have ran : self term rule e.context s t = (.failed f, t') := ran
      simp only [repeatFrom, if_neg more, ran, Failure.isForeign_later knows same above, if_true]
      exact ⟨f, rfl, same⟩
    | @later _ _ _ _ tree _ _ _ more ran moved tried =>
      have le := Refines.le_of_matched refines (own.symm ▸ knows) ran
      have size : (trees.push tree).size = trees.size + 1 := Array.size_push tree
      rw [← size] at tried
      apply (ih (trees.push tree) tried (knows.mono le)).within le
      intro f t' failed
      simp only [repeatFrom, if_neg more, ran, if_neg moved, failed]
      exact ⟨f, rfl, rfl⟩

/-! #### Lists -/

section Lists

variable {element separator : ParserId} (style : ListStyle) {cutSeparator : Bool} {s : Slice} {t : Tally}

theorem PairTries.carries (mayElide : Bool) (tried : PairTries self rule element separator cutSeparator e s t a)
    (knows : t.Knows e.own) :
    Carries self t a (pair ⟨self element, self separator, style, cutSeparator⟩ rule e mayElide s t) := by
  have encloses : Encloses e.outer t.generations e t := ⟨own, rfl, knows, Nat.le_refl _⟩
  obtain ⟨inside, -⟩ := pairInner_spec cutSeparator encloses
  have opened : (if cutSeparator then e.context.enclose true t else (⟨e.context, e.own, e.own⟩, t))
      = pairInner cutSeparator e t := rfl
  cases tried with
  | separator =>
    refine ⟨inside.own.symm ▸ inside.knows, inside.least, ?_⟩
    intro f t' g ran same above
    have other : (f.generation == (pairInner cutSeparator e t).1.own) = false := by
      rw [same, beq_eq_false_iff_ne]
      exact inside.knows.ne above
    have foreign := Failure.isForeign_later (knows.mono inside.least) same above
    simp only [Attempt.run] at ran
    simp only [pair, opened, ran, other, foreign, Bool.false_eq_true, if_false, if_true]
    exact ⟨f, rfl, same⟩
  | @element mark next t' first =>
    have le := Refines.le_of_matched refines (inside.own.symm ▸ inside.knows) first
    have knows' := inside.knows.mono le
    refine ⟨inside.own.symm ▸ knows', Nat.le_trans inside.least le, ?_⟩
    intro f t'' g ran same above
    have other : (f.generation == (pairInner cutSeparator e t).1.own) = false := by
      rw [same, beq_eq_false_iff_ne]
      exact knows'.ne above
    have foreign := Failure.isForeign_later ((knows.mono inside.least).mono le) same above
    simp only [Attempt.run] at ran
    simp only [pair, opened, first, ran, other, foreign, Bool.and_false, Bool.false_eq_true, if_false, if_true,
      ite_self]
    exact ⟨f, rfl, same⟩

theorem HeadTries.carries (tried : HeadTries self rule element separator style cutSeparator e s t a)
    (knows : t.Knows e.own) :
    Carries self t a (listHead ⟨self element, self separator, style, cutSeparator⟩ rule e s t) := by
  cases tried with
  | element =>
    refine ⟨own.symm ▸ knows, Nat.le_refl _, ?_⟩
    intro f t' g ran same above
    have ran : self element rule e.context s t = (.failed f, t') := ran
    simp only [listHead, ran, Failure.isForeign_later knows same above, if_true]
    exact ⟨f, rfl, same⟩
  | leading ran choice leading tried =>
    have le := Refines.le_of_failed refines (own.symm ▸ knows) ran
    apply (tried.carries refines own style false (knows.mono le)).within le
    intro f t' failed
    simp only [listHead, ran, choice, leading, failed, Bool.not_true, Bool.false_eq_true, if_false]
    exact ⟨f, rfl, rfl⟩

theorem TailTries.carries {fuel : Nat} (slots : Array Tree)
    (tried : TailTries self rule element separator style cutSeparator e fuel s t a) (knows : t.Knows e.own) :
    Carries self t a (listTail ⟨self element, self separator, style, cutSeparator⟩ rule e fuel slots s t) := by
  induction fuel generalizing slots s t with
  | zero => cases tried
  | succ fuel ih =>
    cases tried with
    | here tried =>
      apply (tried.carries refines own style style.trailing knows).within (Nat.le_refl _)
      intro f t' failed
      simp only [listTail, failed]
      exact ⟨f, rfl, rfl⟩
    | @later _ _ _ found _ _ ran more tried =>
      have encloses : Encloses e.outer t.generations e t := ⟨own, rfl, knows, Nat.le_refl _⟩
      have le := Judged.le_of_matched (ran ▸ pair_judged refines style.trailing encloses)
      have others := ih ((slots.push found.separator).push (found.element.getD .elided)) tried (knows.mono le)
      apply others.within le
      intro f t' failed
      simp only [listTail, ran, more, Bool.false_eq_true, if_false, failed]
      exact ⟨f, rfl, rfl⟩

end Lists
end Enclosed

end Operators
end Recognizer

/-! ### Operators -/

open Recognizer in
/-- Whatever an operator tries: if it fails with a generation that was opened inside, so does the operator, and it
tries nothing else. -/
theorem Operator.Tries.carries {self : ParserId → Recognizer} {judge : ParserId → Judge}
    (refines : ∀ id, (self id).Refines (judge id)) {rule : String} {c : Context} {s : Slice} {t : Tally}
    {operator : Operator} {a : Attempt} (tried : operator.Tries self rule c s t a) (knows : t.Knows c.generation)
    (label : Option String) : Carries self t a (operator.recognizer self label rule c s t) := by
  obtain ⟨encloses, -⟩ := c.enclose_spec false t
  cases tried with
  | call => exact ⟨knows, Nat.le_refl _, fun f t' g ran same _ => ⟨f, ran, same⟩⟩
  | cut => exact ⟨knows, Nat.le_refl _, fun f t' g ran same _ => ⟨f, ran, same⟩⟩
  | @seq items index a tried =>
    obtain ⟨opened, -⟩ := c.enclose_spec (items.any Item.cut) t
    have force : (items.map fun item => (⟨item.bind, item.cut, self item.parser⟩ : Step)).any Step.cut
        = items.any Item.cut := by
      simp [Function.comp_def]
    generalize here : c.enclose (items.any Item.cut) t = inner at tried opened
    obtain ⟨e, t₁⟩ := inner
    have all : Carries self t₁ a (sequenceFrom label.isSome rule e.outer e.own
        (items.map fun item => ⟨item.bind, item.cut, self item.parser⟩) 0 false e.context s t₁) :=
      opened.own ▸ tried.carries refines 0 false (opened.own.symm ▸ opened.knows)
    apply all.within opened.least
    intro f t' failed
    simp only [Operator.recognizer, Recognizer.sequence, force, here, failed]
    exact ⟨f, rfl, rfl⟩
  | choice tried => exact (tried.carries refines encloses.own 0 [] encloses.knows).earlier encloses.least
  | @quant term min max a tried =>
    have loop : Carries self (c.enclose false t).2 a (repeatFrom (self term) rule (c.enclose false t).1 min max
        (s.chars.length + 2) #[] s (c.enclose false t).2) :=
      RepeatTries.carries refines encloses.own #[] tried encloses.knows
    apply loop.within encloses.least
    intro f t' failed
    simp only [Operator.recognizer, Recognizer.repetition, failed]
    exact ⟨f, rfl, rfl⟩
  | head tried =>
    apply (tried.carries refines encloses.own _ encloses.knows).within encloses.least
    intro f t' failed
    simp only [Operator.recognizer, Recognizer.list, failed]
    exact ⟨f, rfl, rfl⟩
  | @tail element separator style cutSeparator slots next t' a ran tried =>
    have le := Judged.le_of_matched (ran ▸ listHead_judged refines encloses.here)
    apply (tried.carries refines encloses.own style slots.toArray (encloses.knows.mono le)).within
      (Nat.le_trans encloses.least le)
    intro f t'' failed
    simp only [Operator.recognizer, Recognizer.list, ran, failed]
    exact ⟨f, rfl, rfl⟩
  | @default name inner unbound =>
    refine ⟨knows, Nat.le_refl _, ?_⟩
    intro f t' g ran same _
    have ran : self inner name c s t = (.failed f, t') := ran
    simp only [Operator.recognizer, Recognizer.backref, unbound, Option.map_some, ran]
    exact ⟨f, rfl, same⟩

/-! ### Runs of a program -/

namespace Program

variable {p : Program} {depth depth' : Nat} {a b : Attempt} {f : Failure} {t : Tally}

theorem judged_run (knows : a.tally.Knows a.context.generation) :
    Judged id a.context.generation a.tally.generations (a.run (p.recognizer depth))
      (p.judge depth a.parser a.context.texts a.input) :=
  p.recognizer_refines depth a.parser knows

/-- A run fails with the generation that is active where it begins, or with one that it has opened. -/
theorem generation_of_failed (knows : a.tally.Knows a.context.generation)
    (ran : a.run (p.recognizer depth) = (.failed f, t)) :
    f.generation = a.context.generation ∨ GrammarKit.Opened a.tally t f.generation :=
  Judged.generation_of_failed (ran ▸ judged_run knows)

theorem Tries.carries (tried : p.Tries depth a b) (knows : a.tally.Knows a.context.generation) :
    Recognizer.Carries (p.recognizer depth) a.tally b (a.run (p.recognizer (depth + 1))) := by
  obtain ⟨parser, here, tried⟩ := tried
  rw [p.run_succ here]
  have counted : a.tally.attempt.Knows a.context.generation := knows
  exact (tried.carries (p.recognizer_refines depth) counted parser.label).earlier (Nat.le_refl _)

/-- An attempt at whatever level inside another one: its generation has been opened, and if it fails with a
generation that it has opened itself, the outer attempt fails with the same one, and nothing is counted after it. -/
theorem Within.carries (within : p.Within depth a depth' b) (knows : a.tally.Knows a.context.generation) :
    b.tally.Knows b.context.generation ∧ a.tally.generations ≤ b.tally.generations ∧
      ∀ ⦃f t⦄, b.run (p.recognizer depth') = (.failed f, t) → GrammarKit.Opened b.tally t f.generation →
        ∃ f', a.run (p.recognizer depth) = (.failed f', t) ∧ f'.generation = f.generation := by
  induction within with
  | refl => exact ⟨knows, Nat.le_refl _, fun f t ran _ => ⟨f, ran, rfl⟩⟩
  | step tried _ ih =>
    have outer := Tries.carries tried knows
    obtain ⟨knows', le, passes⟩ := ih outer.knows
    refine ⟨knows', Nat.le_trans outer.le le, ?_⟩
    intro f t ran opened
    obtain ⟨f', ran', same⟩ := passes ran opened
    obtain ⟨g, here, above, below⟩ := opened
    obtain ⟨f'', ran'', same'⟩ := outer.passes ran' (same.trans here) (Nat.le_trans le above)
    exact ⟨f'', ran'', same'.trans here.symm⟩

/-- An attempt at item number `index` of a sequence, while the sequence itself is attempted. -/
def TriesItem (p : Program) (depth : Nat) (a : Attempt) (label : Option String) (items : List Item) (index : Nat)
    (b : Attempt) : Prop :=
  p.parsers[a.parser]? = some ⟨label, .seq items⟩ ∧
    Recognizer.SequenceTries (p.recognizer depth) (label.getD a.rule) items index
      (a.context.enclose (items.any Item.cut) a.tally.attempt).1.context a.input
      (a.context.enclose (items.any Item.cut) a.tally.attempt).2 b

/-- Behind a cutpoint, whatever failure of an item makes the sequence fail with a generation that was opened
inside it. -/
theorem TriesItem.opened_of_failed {label : Option String} {items : List Item} {index : Nat}
    (tried : p.TriesItem depth a label items index b) (behind : (items.take index).any Item.cut = true)
    (knows : a.tally.Knows a.context.generation) (ran : b.run (p.recognizer depth) = (.failed f, t)) :
    ∃ f', a.run (p.recognizer (depth + 1)) = (.failed f', t) ∧ GrammarKit.Opened a.tally t f'.generation := by
  obtain ⟨here, tried⟩ := tried
  have carries := Tries.carries ⟨_, here, .seq tried⟩ knows
  have le := Judged.le_of_failed (ran ▸ judged_run carries.knows)
  have forces : items.any Item.cut = true := by
    obtain ⟨item, member, cut⟩ := List.any_eq_true.mp behind
    exact List.any_eq_true.mpr ⟨item, List.mem_of_mem_take member, cut⟩
  have force : (items.map fun item =>
      (⟨item.bind, item.cut, p.recognizer depth item.parser⟩ : Recognizer.Step)).any Recognizer.Step.cut
        = items.any Item.cut := by
    simp [Function.comp_def]
  obtain ⟨encloses, -, fresh⟩ := a.context.enclose_spec (items.any Item.cut) a.tally.attempt
  obtain ⟨g, own, above⟩ := fresh forces
  have inside : b.context.generation = some g := tried.generation.trans (encloses.own.trans own)
  generalize opened : a.context.enclose (items.any Item.cut) a.tally.attempt = inner at tried
  obtain ⟨e, t'⟩ := inner
  obtain ⟨f', failed, same⟩ : ∃ f', Recognizer.sequenceFrom label.isSome (label.getD a.rule) e.outer e.own
      (items.map fun item => ⟨item.bind, item.cut, p.recognizer depth item.parser⟩) 0 false e.context a.input t'
        = (.failed f', t) ∧ f'.generation = f.generation :=
    tried.fails_behind 0 false behind ran
  refine ⟨f', ?_, ?_⟩
  · rw [p.run_succ here]
    simp only [Operator.recognizer, Recognizer.sequence, force, opened, failed]
  · rw [same]
    rcases generation_of_failed carries.knows ran with active | ⟨g', later, above', below⟩
    · exact ⟨g, active.trans inside, above, Nat.lt_of_lt_of_le (carries.knows g inside) le⟩
    · exact ⟨g', later, Nat.le_trans carries.le above', below⟩

/-- The attempt that a parse starts with. -/
def startAttempt (slot : ParserId) (rule : String) (input : Slice) : Attempt :=
  ⟨slot, rule, {}, input, {}⟩

/-- The items of a sequence are cutpoints just where its terms are. -/
theorem BuiltItems.cuts {d : Draft} {s : Surroundings} {whole : ParserId} : ∀ {ts : List Term} {items : List Item},
    BuiltItems d s whole ts items → items.map Item.cut = ts.map Term.isCut
  | [], [], _ => rfl
  | t :: ts, item :: items, ⟨_, _, cut, _, others⟩ => by
    rw [List.map_cons, List.map_cons, cut, others.cuts]

end Program

/-! ### Parses -/

namespace Parsers

variable {g : Grammar} {options : CompileOptions} {p : Parsers} {rule : String} {slot : ParserId} {input : Slice}

/-- A run from the start that fails with a generation makes the parse fail for good. -/
theorem parsePartial_fatal (found : p.program.rules.get? rule = some slot) {f : Failure} {t : Tally}
    (ran : (Program.startAttempt slot rule input).run (p.program.recognizer (p.program.fuelFor input))
      = (.failed f, t)) (opened : Opened {} t f.generation) :
    p.parsePartial rule input = .error (.fatal f) ∧ p.parse rule input = .error (.fatal f) := by
  have ran : p.program.start slot rule input = (.failed f, t) := ran
  obtain ⟨g, same, -⟩ := opened
  have partially : p.parsePartial rule input = .error (.fatal f) := by
    simp only [parsePartial, runPartial, found, ran, ofOutcome, same, Option.isSome_some, if_true]
  refine ⟨partially, ?_⟩
  show (p.parsePartial rule input).bind requireAll = _
  rw [partially]
  rfl

/-- **Cutpoints are final.**  Whatever is attempted while a program runs fails with the generation that is active
then, or with one that is opened during the attempt; and in the second case each attempt around it fails with the
same generation, and nothing else is tried.  So if a sequence fails behind one of its cutpoints, which are the
items whose terms are cutpoints, the whole parse is over, and without cutpoints no parse ends that way. -/
theorem cutpoints_final (compiled : g.compile options = .ok p) :
    (∀ (depth : Nat) (a : Attempt) (f : Failure) (t : Tally), a.tally.Knows a.context.generation →
        a.run (p.program.recognizer depth) = (.failed f, t) →
        f.generation = a.context.generation ∨ Opened a.tally t f.generation) ∧
      (∀ (depth depth' : Nat) (a b : Attempt) (f : Failure) (t : Tally), a.tally.Knows a.context.generation →
        p.program.Within depth a depth' b → b.run (p.program.recognizer depth') = (.failed f, t) →
        Opened b.tally t f.generation →
        ∃ f', a.run (p.program.recognizer depth) = (.failed f', t) ∧ f'.generation = f.generation) ∧
      (∀ s label ts id, Program.BuiltAt p.program.draft s label (.seq ts) id →
        ∃ items, p.program.parsers[id]? = some ⟨label, .seq items⟩ ∧ items.map Item.cut = ts.map Term.isCut) ∧
      (∀ (rule : String) (slot : ParserId) (input : Slice) (depth : Nat) (a b : Attempt) (label : Option String)
        (items : List Item) (index : Nat) (f : Failure) (t : Tally), p.program.rules.get? rule = some slot →
        p.program.Within (p.program.fuelFor input) (Program.startAttempt slot rule input) (depth + 1) a →
        p.program.TriesItem depth a label items index b → (items.take index).any Item.cut = true →
        b.run (p.program.recognizer depth) = (.failed f, t) →
        ∃ f', p.parsePartial rule input = .error (.fatal f') ∧ p.parse rule input = .error (.fatal f')) ∧
      (p.grammar.Uncut → ∀ rule input f,
        p.parsePartial rule input ≠ .error (.fatal f) ∧ p.parse rule input ≠ .error (.fatal f)) := by
  refine ⟨?_, ?_, ?_, ?_, ?_⟩
  · intro depth a f t knows ran
    exact Program.generation_of_failed knows ran
  · intro depth depth' a b f t knows within ran opened
    exact (within.carries knows).2.2 ran opened
  · rintro s label ts id ⟨items, here, built⟩
    exact ⟨items, here, built.cuts⟩
  · intro rule slot input depth a b label items index f t found within tried behind ran
    have nothing : (Program.startAttempt slot rule input).tally.Knows none := nofun
    obtain ⟨knows, le, passes⟩ := within.carries nothing
    obtain ⟨f', failed, opened⟩ := tried.opened_of_failed behind knows ran
    obtain ⟨f'', ran', same⟩ := passes failed opened
    obtain ⟨g, here, above, below⟩ := opened
    exact ⟨f'', parsePartial_fatal found ran' ⟨g, same.trans here, Nat.zero_le _, below⟩⟩
  · intro uncut rule input f
    have partially : p.parsePartial rule input ≠ .error (.fatal f) := by
      intro fatal
      cases found : p.program.rules.get? rule with
      | none =>
        simp only [parsePartial, runPartial, found] at fatal
        cases fatal
      | some slot =>
        have shows := shows_parsePartial found input
        rw [fatal] at shows
        have mild := (uncut_compile compiled uncut).judge_ne_fatal (p.program.fuelFor input) slot .unbound input
        generalize p.program.judge _ slot _ input = verdict at shows mild
        cases shows
        exact mild rfl
    refine ⟨partially, ?_⟩
    intro fatal
    have fatal : (p.parsePartial rule input).bind requireAll = .error (.fatal f) := fatal
    cases parsed : p.parsePartial rule input with
    | error e =>
      rw [parsed] at fatal partially
      exact partially (congrArg Except.error (Except.error.inj fatal))
    | ok found =>
      obtain ⟨tree, rest⟩ := found
      rw [parsed] at fatal
      simp only [Except.bind, requireAll] at fatal
      split at fatal <;> cases fatal

/-- A mark and a letter behind it.  The mark is a cutpoint. -/
def letterBehindMark : Grammar :=
  ⟨[("item", .seq [.cut (.literal "#"), .literal "a"])]⟩

theorem cutpoints_final_letterBehindMark : ∃ p, letterBehindMark.compile ⟨false, false⟩ = .ok p ∧
    ∃ f, p.parsePartial "item" (.ofText "#b") = .error (.fatal f) := by
  -- where the parsers are, and that the mark matches and the letter behind it does not
  have checked : (letterBehindMark.compile ⟨false, false⟩).toOption.any (fun p =>
      decide (p.program.rules.get? "item" = some 0 ∧ p.program.fuelFor (.ofText "#b") = 36 ∧
        p.program.parsers[0]? = some ⟨none, .call 4⟩ ∧
        p.program.parsers[4]? = some ⟨some "item", .seq [⟨2, none, true⟩, ⟨3, none, false⟩]⟩) &&
      match p.program.recognizer 34 2 "item" ⟨[], some 0⟩ (.ofText "#b") ⟨1, 2, 0⟩ with
      | (.matched (_, next), t) =>
          match p.program.recognizer 34 3 "item" ⟨[], some 0⟩ next t with
          | (.failed _, _) => true
          | _ => false
      | _ => false) = true := by
    decide +kernel
  cases compiled : letterBehindMark.compile ⟨false, false⟩ with
  | error e =>
    rw [compiled] at checked
    cases checked
  | ok p =>
    simp only [compiled, Except.toOption, Option.any_some, Bool.and_eq_true, decide_eq_true_eq] at checked
    obtain ⟨⟨found, fuel, slot, body⟩, checked⟩ := checked
    split at checked
    · next tree next t mark =>
      split at checked
      · next f t' letter =>
        let a : Attempt := ⟨4, "item", {}, .ofText "#b", ⟨0, 1, 0⟩⟩
        let b : Attempt := ⟨3, "item", ⟨[], some 0⟩, next, t⟩
        have within : p.program.Within (p.program.fuelFor (.ofText "#b"))
            (Program.startAttempt 0 "item" (.ofText "#b")) 35 a := by
          rw [fuel]
          exact .step ⟨_, slot, .call⟩ .refl
        have tried : p.program.TriesItem 34 a (some "item") [⟨2, none, true⟩, ⟨3, none, false⟩] 1 b :=
          ⟨body, .later mark .here⟩
        obtain ⟨-, -, -, final, -⟩ := cutpoints_final compiled
        obtain ⟨f', fatal, -⟩ := final "item" 0 (.ofText "#b") 34 a b _ _ 1 f t' found within tried rfl letter
        exact ⟨p, rfl, f', fatal⟩
      · cases checked
    · cases checked

end Parsers
end GrammarKit
