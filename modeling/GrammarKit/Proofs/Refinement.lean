/-
Module: GrammarKit.Proofs.Refinement
Purpose: The means by which a run decides.  A failure belongs to the generation that was active where the run
  began, and then other alternatives are tried, or to a generation that was opened during the run, and then it
  is passed on by everything around it.  So a run decides just what the judge of its parser says.
Main exports: Judged, Recognizer.Refines, Program.recognizer_refines
-/
import Mathlib.Tactic.Common
import GrammarKit.Proofs.Verdict

namespace GrammarKit

/-! ### Outcomes and verdicts -/

/-- A generation that is active has been opened. -/
def Tally.Knows (t : Tally) (generation : Option Nat) : Prop :=
  ∀ g, generation = some g → g < t.generations

theorem Tally.Knows.mono {t t' : Tally} {generation : Option Nat} (h : t.Knows generation)
    (le : t.generations ≤ t'.generations) : t'.Knows generation :=
  fun g same => Nat.lt_of_lt_of_le (h g same) le

/-- An outcome goes with a verdict.  Failures that leave a choice belong to the generation that is active
outside; fatal ones belong to one of the generations from `least` on, which have been opened inside. -/
inductive Judged {α β : Type} (view : α → β) (generation : Option Nat) (least : Nat) :
    Outcome α × Tally → Verdict β → Prop
  | matched {value t} : least ≤ t.generations → Judged view generation least (.matched value, t)
      (.matched (view value))
  | failed {f t} : least ≤ t.generations → f.generation = generation →
      Judged view generation least (.failed f, t) .failed
  | fatal {f t g} : f.generation = some g → least ≤ g → g < t.generations →
      Judged view generation least (.failed f, t) .fatal
  | exhausted {t} : Judged view generation least (.exhausted, t) .exhausted

/-- A recognizer decides what a judge says. -/
def Recognizer.Refines (run : Recognizer) (judge : Judge) : Prop :=
  ∀ ⦃rule c s t⦄, t.Knows c.generation →
    Judged id c.generation t.generations (run rule c s t) (judge c.texts s)

/-! ### Generations inside an operator -/

/-- A generation that is opened after a number of others. -/
def Fresh (least : Nat) (generation : Option Nat) : Prop :=
  ∃ g, generation = some g ∧ least ≤ g

/-- A context inside an operator whose failures may be handed to the generation around it. -/
structure Encloses (generation : Option Nat) (least : Nat) (e : Enclosed) (t : Tally) : Prop where
  own : e.context.generation = e.own
  outer : e.outer = generation
  knows : t.Knows e.own
  least : least ≤ t.generations

theorem Encloses.later {generation : Option Nat} {least : Nat} {e : Enclosed} {t t' : Tally}
    (h : Encloses generation least e t) (le : t.generations ≤ t'.generations) :
    Encloses generation least e t' :=
  ⟨h.own, h.outer, h.knows.mono le, Nat.le_trans h.least le⟩

theorem Encloses.here {generation : Option Nat} {least : Nat} {e : Enclosed} {t : Tally}
    (h : Encloses generation least e t) : Encloses generation t.generations e t :=
  ⟨h.own, h.outer, h.knows, Nat.le_refl _⟩

/-- What is opened is fresh, and a forced generation is always opened. -/
theorem Context.enclose_spec (c : Context) (force : Bool) (t : Tally) :
    Encloses c.generation t.generations (c.enclose force t).1 (c.enclose force t).2 ∧
      (c.enclose force t).1.context.texts = c.texts ∧
      (force = true → Fresh t.generations (c.enclose force t).1.own) := by
  rw [enclose]
  split
  · next closed =>
    obtain ⟨none, notForced⟩ := (Bool.and_eq_true _ _).mp closed
    have none : c.generation = .none := Option.isNone_iff_eq_none.mp none
    refine ⟨⟨none, none.symm, nofun, Nat.le_refl _⟩, rfl, fun forced => ?_⟩
    rw [forced] at notForced
    cases notForced
  · refine ⟨⟨rfl, rfl, fun g same => ?_, Nat.le_succ _⟩, rfl, fun _ => ⟨_, rfl, Nat.le_refl _⟩⟩
    exact Option.some.inj same ▸ Nat.lt_succ_self _

theorem Failure.isForeign_own {f : Failure} {own : Option Nat} (same : f.generation = own) :
    f.isForeign own = false := by
  simp [isForeign, same]

/-- A generation that is opened later is another one. -/
theorem Tally.Knows.ne {t : Tally} {own : Option Nat} {g : Nat} (knows : t.Knows own)
    (later : t.generations ≤ g) : some g ≠ own :=
  fun same => Nat.not_lt.mpr later (knows g same.symm)

theorem Failure.isForeign_later {f : Failure} {own : Option Nat} {t : Tally} {g : Nat} (knows : t.Knows own)
    (same : f.generation = some g) (later : t.generations ≤ g) : f.isForeign own = true := by
  simp [isForeign, same, knows.ne later]

@[simp] theorem Failure.generation_retag (f : Failure) (generation : Option Nat) :
    (f.retag generation).generation = generation := by
  cases f
  rfl

/-! ### Operators -/

namespace Recognizer

@[simp] theorem generation_sequenceFailure (labelled : Bool) (rule : String) (index offset : Nat) (f : Failure) :
    (sequenceFailure labelled rule index offset f).generation = f.generation := by
  rw [sequenceFailure]
  split <;> rfl

section Operators

variable {self : ParserId → Recognizer} {judge : ParserId → Judge}
  (refines : ∀ id, (self id).Refines (judge id)) {rule : String} {s : Slice}
include refines

theorem sequenceFrom_judged {labelled : Bool} {outer own : Option Nat} {items : List Item} {least : Nat}
    (index : Nat) {crossed : Bool} {c : Context} {t : Tally} (inside : c.generation = own) (knows : t.Knows own)
    (lower : least ≤ t.generations) (forced : (crossed || items.any Item.cut) = true → Fresh least own) :
    Judged id outer least
      (sequenceFrom labelled rule outer own (items.map fun item => ⟨item.bind, item.cut, self item.parser⟩)
        index crossed c s t)
      (Judge.sequenceFrom (items.map fun item => ⟨item.bind, item.cut, judge item.parser⟩) crossed c.texts s) := by
  induction items generalizing index crossed c s t with
  | nil => exact .matched lower
  | cons item items ih =>
    have first : Judged id own t.generations (self item.parser rule c s t) (judge item.parser c.texts s) :=
      inside ▸ refines item.parser (inside ▸ knows)
    simp only [List.map_cons, sequenceFrom, Judge.sequenceFrom]
    generalize self item.parser rule c s t = result at first ⊢
    generalize judge item.parser c.texts s = verdict at first ⊢
    cases first with
    | @matched found t' le =>
      obtain ⟨tree, next⟩ := found
      have texts : (Step.after ⟨item.bind, item.cut, self item.parser⟩ c tree).texts
          = Judge.Step.after ⟨item.bind, item.cut, judge item.parser⟩ c.texts tree := by
        simp only [Step.after, Judge.Step.after]
        cases item.bind with
        | none => rfl
        | some name => exact c.texts_bind name tree
      have inside' : (Step.after ⟨item.bind, item.cut, self item.parser⟩ c tree).generation = own := by
        rw [← inside, Step.after]
        split <;> rfl
      have forced' : ((crossed || item.cut) || items.any Item.cut) = true → Fresh least own := by
        rw [Bool.or_assoc]
        exact forced
      have others := ih (s := next) (index + 1) inside' (knows.mono le) (Nat.le_trans lower le) forced'
      rw [texts] at others
      simp only [Verdict.andThen, id]
      generalize sequenceFrom labelled rule outer own _ (index + 1) _ _ next t' = result at others ⊢
      generalize Judge.sequenceFrom _ _ _ next = verdict at others ⊢
      cases others with
      | matched le => exact .matched le
      | failed le same => exact .failed le same
      | fatal same le lt => exact .fatal same le lt
      | exhausted => exact .exhausted
    | @failed f t' le same =>
      simp only [Verdict.andThen]
      cases crossed with
      | false =>
        refine .failed (Nat.le_trans lower le) ?_
        simp [same]
      | true =>
        obtain ⟨g, opened, above⟩ := forced rfl
        have same : f.generation = some g := same.trans opened
        refine .fatal (g := g) ?_ above (Nat.lt_of_lt_of_le (knows g opened) le)
        simpa using same
    | @fatal f t' g same le lt =>
      simp only [Verdict.andThen]
      have foreign : (f.generation == own) = false := by
        rw [same, beq_eq_false_iff_ne]
        exact knows.ne le
      refine .fatal (g := g) ?_ (Nat.le_trans lower le) lt
      simpa [foreign] using same
    | exhausted => exact .exhausted

theorem sequence_refines (label : Option String) (items : List Item) :
    (sequence label (items.map fun item => ⟨item.bind, item.cut, self item.parser⟩)).Refines
      (Judge.sequence label (items.map fun item => ⟨item.bind, item.cut, judge item.parser⟩)) := by
  intro rule c s t _
  have force : (items.map fun item => (⟨item.bind, item.cut, self item.parser⟩ : Step)).any Step.cut
      = items.any Item.cut := by
    simp [Function.comp_def]
  obtain ⟨encloses, texts, forced⟩ := c.enclose_spec (items.any Item.cut) t
  simp only [sequence, Judge.sequence, force]
  generalize c.enclose (items.any Item.cut) t = opened at encloses texts forced ⊢
  obtain ⟨e, t'⟩ := opened
  have all : Judged id e.outer t.generations
      (sequenceFrom label.isSome rule e.outer e.own
        (items.map fun item => ⟨item.bind, item.cut, self item.parser⟩) 0 false e.context s t')
      (Judge.sequenceFrom (items.map fun item => ⟨item.bind, item.cut, judge item.parser⟩) false c.texts s) :=
    texts ▸ sequenceFrom_judged refines 0 encloses.own encloses.knows encloses.least forced
  dsimp only
  generalize sequenceFrom _ rule e.outer e.own _ 0 false e.context s t' = result at all ⊢
  generalize Judge.sequenceFrom _ false c.texts s = verdict at all ⊢
  cases all with
  | matched le => exact .matched le
  | failed le same => exact .failed le (same.trans encloses.outer)
  | fatal same le lt => exact .fatal same le lt
  | exhausted => exact .exhausted

theorem choiceFrom_judged {generation : Option Nat} {least : Nat} {e : Enclosed} {tag : String}
    (alternatives : List ParserId) (index : Nat) (failures : List Failure) {t : Tally}
    (encloses : Encloses generation least e t) :
    Judged id generation least (choiceFrom tag rule e s (alternatives.map self) index failures t)
      (Judge.choiceFrom tag e.context.texts s (alternatives.map judge) index) := by
  induction alternatives generalizing index failures t with
  | nil => exact .failed encloses.least encloses.outer
  | cons alternative alternatives ih =>
    have first : Judged id e.own t.generations (self alternative rule e.context s t)
        (judge alternative e.context.texts s) :=
      encloses.own ▸ refines alternative (encloses.own ▸ encloses.knows)
    simp only [List.map_cons, choiceFrom, Judge.choiceFrom]
    generalize self alternative rule e.context s t = result at first ⊢
    generalize judge alternative e.context.texts s = verdict at first ⊢
    cases first with
    | matched le => exact .matched (Nat.le_trans encloses.least le)
    | failed le same =>
      simp only [Failure.isForeign_own same, Bool.false_eq_true, if_false, Verdict.andThen]
      exact ih _ _ (encloses.later le)
    | fatal same le lt =>
      simp only [Failure.isForeign_later encloses.knows same le, if_true, Verdict.andThen]
      exact .fatal same (Nat.le_trans encloses.least le) lt
    | exhausted => exact .exhausted

/-- A repetition gives its trees and what is left, and besides them the failure that ended it. -/
theorem repeatFrom_judged {generation : Option Nat} {least : Nat} {e : Enclosed} {term : ParserId}
    {min max fuel : Nat} (trees : Array Tree) {t : Tally} (encloses : Encloses generation least e t) :
    Judged (fun found => (found.1, found.2.1)) generation least
      (repeatFrom (self term) rule e min max fuel trees s t)
      (Judge.repeatFrom (judge term) e.context.texts min max fuel trees s) := by
  induction fuel generalizing s trees t with
  | zero => exact .exhausted
  | succ fuel ih =>
    have first : Judged id e.own t.generations (self term rule e.context s t) (judge term e.context.texts s) :=
      encloses.own ▸ refines term (encloses.own ▸ encloses.knows)
    simp only [repeatFrom, Judge.repeatFrom]
    split
    · exact .matched encloses.least
    · generalize self term rule e.context s t = result at first ⊢
      generalize judge term e.context.texts s = verdict at first ⊢
      cases first with
      | @matched found t' le =>
        simp only [Verdict.andThen, id]
        split
        · exact .matched (Nat.le_trans encloses.least le)
        · exact ih _ (encloses.later le)
      | failed le same =>
        simp only [Failure.isForeign_own same, Bool.false_eq_true, if_false, Verdict.andThen]
        exact .matched (Nat.le_trans encloses.least le)
      | fatal same le lt =>
        simp only [Failure.isForeign_later encloses.knows same le, if_true, Verdict.andThen]
        exact .fatal same (Nat.le_trans encloses.least le) lt
      | exhausted => exact .exhausted

theorem repetition_refines (label : Option String) (term : ParserId) (min max : Nat) :
    (repetition label (self term) min max).Refines (Judge.repetition label (judge term) min max) := by
  intro rule c s t _
  obtain ⟨encloses, texts, -⟩ := c.enclose_spec false t
  simp only [repetition, Judge.repetition]
  generalize c.enclose false t = opened at encloses texts ⊢
  obtain ⟨e, t'⟩ := opened
  have loop : Judged (fun found => (found.1, found.2.1)) c.generation t.generations
      (repeatFrom (self term) rule e min max (s.chars.length + 2) #[] s t')
      (Judge.repeatFrom (judge term) c.texts min max (s.chars.length + 2) #[] s) :=
    texts ▸ repeatFrom_judged refines #[] encloses
  dsimp only
  generalize repeatFrom _ rule e min max _ _ s t' = result at loop ⊢
  generalize Judge.repeatFrom _ c.texts min max _ _ s = verdict at loop ⊢
  cases loop with
  | @matched found t'' le =>
    simp only [Verdict.andThen]
    split
    · exact .matched le
    · exact .failed le encloses.outer
  | failed le same => exact .failed le same
  | fatal same le lt => exact .fatal same le lt
  | exhausted => exact .exhausted

/-- What a pair opens around its separator and its element. -/
def pairInner (cutSeparator : Bool) (e : Enclosed) (t : Tally) : Enclosed × Tally :=
  if cutSeparator then e.context.enclose true t else (⟨e.context, e.own, e.own⟩, t)

omit refines in
theorem pairInner_spec {generation : Option Nat} {least : Nat} {e : Enclosed} {t : Tally} (cutSeparator : Bool)
    (encloses : Encloses generation least e t) :
    Encloses e.own t.generations (pairInner cutSeparator e t).1 (pairInner cutSeparator e t).2 ∧
      (pairInner cutSeparator e t).1.context.texts = e.context.texts ∧
      (cutSeparator = true → Fresh t.generations (pairInner cutSeparator e t).1.own) ∧
      (cutSeparator = false → (pairInner cutSeparator e t).1.own = e.own) := by
  rw [pairInner]
  cases cutSeparator with
  | false => exact ⟨⟨encloses.own, rfl, encloses.knows, Nat.le_refl _⟩, rfl, nofun, fun _ => rfl⟩
  | true =>
    obtain ⟨inner, texts, forced⟩ := e.context.enclose_spec true t
    exact ⟨encloses.own ▸ inner, texts, forced, nofun⟩

/-- A pair never fails so that other alternatives are tried: there is just no further pair then. -/
theorem pair_judged {generation : Option Nat} {least : Nat} {e : Enclosed} {element separator : ParserId}
    {style : ListStyle} {cutSeparator : Bool} (mayElide : Bool) {t : Tally}
    (encloses : Encloses generation least e t) :
    Judged id generation least
      (pair ⟨self element, self separator, style, cutSeparator⟩ rule e mayElide s t)
      (Judge.pair ⟨judge element, judge separator, style, cutSeparator⟩ e.context.texts mayElide s) := by
  obtain ⟨inside, texts, forced, plain⟩ := pairInner_spec cutSeparator encloses
  have opened : (if cutSeparator then e.context.enclose true t else (⟨e.context, e.own, e.own⟩, t))
      = pairInner cutSeparator e t := rfl
  simp only [pair, Judge.pair, opened]
  generalize pairInner cutSeparator e t = opened at inside texts forced plain ⊢
  obtain ⟨inner, t₁⟩ := opened
  have first : Judged id inner.own t₁.generations (self separator rule inner.context s t₁)
      (judge separator e.context.texts s) :=
    texts ▸ inside.own ▸ refines separator (inside.own ▸ inside.knows)
  have above := Nat.le_trans encloses.least inside.least
  dsimp only
  generalize self separator rule inner.context s t₁ = result at first ⊢
  generalize judge separator e.context.texts s = verdict at first ⊢
  cases first with
  | @matched found t₂ le =>
    obtain ⟨mark, next⟩ := found
    have inside := inside.later le
    have second : Judged id inner.own t₂.generations (self element rule inner.context next t₂)
        (judge element e.context.texts next) :=
      texts ▸ inside.own ▸ refines element (inside.own ▸ inside.knows)
    simp only [Verdict.andThen, id]
    generalize self element rule inner.context next t₂ = result at second ⊢
    generalize judge element e.context.texts next = verdict at second ⊢
    have above := Nat.le_trans above le
    cases second with
    | matched le => exact .matched (Nat.le_trans above le)
    | @failed f t₃ le' same =>
      have above := Nat.le_trans above le'
      cases cutSeparator with
      | true =>
        simp only [if_true, same, beq_self_eq_true, Bool.and_true]
        cases mayElide with
        | true => exact .matched above
        | false =>
          obtain ⟨g, own, later⟩ := forced rfl
          exact .fatal (same.trans own) (Nat.le_trans encloses.least later)
            (Nat.lt_of_lt_of_le (inside.knows g own) le')
      | false =>
        simp only [Bool.false_eq_true, if_false, Failure.isForeign_own (same.trans (plain rfl))]
        cases mayElide with
        | true => exact .matched above
        | false => exact .matched above
    | @fatal f t₃ g same le' lt =>
      have fatal : Judged id generation least (Outcome.failed f, t₃) (Verdict.fatal : Verdict (Option Pair)) :=
        .fatal same (Nat.le_trans above le') lt
      cases cutSeparator with
      | true =>
        have other : (f.generation == inner.own) = false := by
          rw [same, beq_eq_false_iff_ne]
          exact inside.knows.ne le'
        simpa only [if_true, other, Bool.and_false, Bool.false_eq_true, if_false] using fatal
      | false =>
        have foreign := Failure.isForeign_later (plain rfl ▸ inside.knows) same le'
        simpa only [Bool.false_eq_true, if_false, foreign, if_true] using fatal
    | exhausted => exact .exhausted
  | @failed f t₂ le same =>
    have own : (f.retag inner.outer).isForeign e.own = false :=
      Failure.isForeign_own ((f.generation_retag _).trans inside.outer)
    simp only [same, beq_self_eq_true, if_true, own, Bool.false_eq_true, if_false, Verdict.andThen]
    exact .matched (Nat.le_trans above le)
  | @fatal f t₂ g same le lt =>
    have other : (f.generation == inner.own) = false := by
      rw [same, beq_eq_false_iff_ne]
      exact inside.knows.ne le
    have foreign : f.isForeign e.own = true :=
      Failure.isForeign_later (encloses.knows.mono inside.least) same le
    simp only [other, Bool.false_eq_true, if_false, foreign, if_true, Verdict.andThen]
    exact .fatal same (Nat.le_trans above le) lt
  | exhausted => exact .exhausted

theorem listHead_judged {generation : Option Nat} {least : Nat} {e : Enclosed} {element separator : ParserId}
    {style : ListStyle} {cutSeparator : Bool} {t : Tally} (encloses : Encloses generation least e t) :
    Judged id generation least (listHead ⟨self element, self separator, style, cutSeparator⟩ rule e s t)
      (Judge.listHead ⟨judge element, judge separator, style, cutSeparator⟩ e.context.texts s) := by
  have first : Judged id e.own t.generations (self element rule e.context s t)
      (judge element e.context.texts s) :=
    encloses.own ▸ refines element (encloses.own ▸ encloses.knows)
  simp only [listHead, Judge.listHead]
  generalize self element rule e.context s t = result at first ⊢
  generalize judge element e.context.texts s = verdict at first ⊢
  cases first with
  | matched le => exact .matched (Nat.le_trans encloses.least le)
  | @failed f t' le same =>
    have encloses := encloses.later le
    simp only [Failure.isForeign_own same, Bool.false_eq_true, if_false, Verdict.andThen]
    cases style.leading with
    | false => exact .failed encloses.least encloses.outer
    | true =>
      have pairs : Judged id generation least
          (pair ⟨self element, self separator, style, cutSeparator⟩ rule e false s t')
          (Judge.pair ⟨judge element, judge separator, style, cutSeparator⟩ e.context.texts false s) :=
        pair_judged refines false encloses
      simp only [Bool.not_true, Bool.false_eq_true, if_false, if_true]
      generalize pair _ rule e false s t' = result at pairs ⊢
      generalize Judge.pair _ e.context.texts false s = verdict at pairs ⊢
      cases pairs with
      | @matched found t'' le =>
        match found with
        | none => exact .failed le encloses.outer
        | some ⟨mark, none, rest⟩ => exact .failed le encloses.outer
        | some ⟨mark, some tree, rest⟩ => exact .matched le
      | failed le same => exact .failed le same
      | fatal same le lt => exact .fatal same le lt
      | exhausted => exact .exhausted
  | fatal same le lt =>
    simp only [Failure.isForeign_later encloses.knows same le, if_true, Verdict.andThen]
    exact .fatal same (Nat.le_trans encloses.least le) lt
  | exhausted => exact .exhausted

theorem listTail_judged {generation : Option Nat} {least : Nat} {e : Enclosed} {element separator : ParserId}
    {style : ListStyle} {cutSeparator : Bool} {fuel : Nat} (slots : Array Tree) {t : Tally}
    (encloses : Encloses generation least e t) :
    Judged id generation least (listTail ⟨self element, self separator, style, cutSeparator⟩ rule e fuel slots s t)
      (Judge.listTail ⟨judge element, judge separator, style, cutSeparator⟩ e.context.texts fuel slots s) := by
  induction fuel generalizing s slots t with
  | zero => exact .exhausted
  | succ fuel ih =>
    have pairs : Judged id generation t.generations
        (pair ⟨self element, self separator, style, cutSeparator⟩ rule e style.trailing s t)
        (Judge.pair ⟨judge element, judge separator, style, cutSeparator⟩ e.context.texts style.trailing s) :=
      pair_judged refines _ encloses.here
    simp only [listTail, Judge.listTail]
    generalize pair _ rule e style.trailing s t = result at pairs ⊢
    generalize Judge.pair _ e.context.texts style.trailing s = verdict at pairs ⊢
    cases pairs with
    | @matched found t' le =>
      cases found with
      | none => exact .matched (Nat.le_trans encloses.least le)
      | some found =>
        simp only [Verdict.andThen, id]
        split
        · exact .matched (Nat.le_trans encloses.least le)
        · exact ih _ (encloses.later le)
    | failed le same => exact .failed (Nat.le_trans encloses.least le) same
    | fatal same le lt => exact .fatal same (Nat.le_trans encloses.least le) lt
    | exhausted => exact .exhausted

theorem list_refines (label : Option String) (element separator : ParserId) (style : ListStyle)
    (cutSeparator : Bool) :
    (list label ⟨self element, self separator, style, cutSeparator⟩).Refines
      (Judge.list label ⟨judge element, judge separator, style, cutSeparator⟩) := by
  intro rule c s t _
  obtain ⟨encloses, texts, -⟩ := c.enclose_spec false t
  simp only [list, Judge.list]
  generalize c.enclose false t = opened at encloses texts ⊢
  obtain ⟨e, t'⟩ := opened
  have head : Judged id c.generation t'.generations
      (listHead ⟨self element, self separator, style, cutSeparator⟩ rule e s t')
      (Judge.listHead ⟨judge element, judge separator, style, cutSeparator⟩ c.texts s) :=
    texts ▸ listHead_judged refines encloses.here
  dsimp only
  generalize listHead _ rule e s t' = result at head ⊢
  generalize Judge.listHead _ c.texts s = verdict at head ⊢
  cases head with
  | @matched found t₂ le =>
    have tail : Judged id c.generation t.generations
        (listTail ⟨self element, self separator, style, cutSeparator⟩ rule e (s.chars.length + 2)
          found.1.toArray found.2 t₂)
        (Judge.listTail ⟨judge element, judge separator, style, cutSeparator⟩ c.texts (s.chars.length + 2)
          found.1.toArray found.2) :=
      texts ▸ listTail_judged refines found.1.toArray (encloses.later le)
    simp only [Verdict.andThen, id]
    generalize listTail _ rule e _ _ _ t₂ = result at tail ⊢
    generalize Judge.listTail _ c.texts _ _ _ = verdict at tail ⊢
    cases tail with
    | matched le => exact .matched le
    | failed le same => exact .failed le same
    | fatal same le lt => exact .fatal same le lt
    | exhausted => exact .exhausted
  | failed le same => exact .failed (Nat.le_trans encloses.least le) same
  | fatal same le lt => exact .fatal same (Nat.le_trans encloses.least le) lt
  | exhausted => exact .exhausted

theorem backref_refines (name : String) (default : Option ParserId) :
    (backref name (default.map self)).Refines (Judge.backref name (default.map judge)) := by
  intro rule c s t knows
  simp only [backref, Judge.backref, Context.texts]
  cases c.find? name with
  | some bound =>
    simp only [Option.map_some]
    cases s.splitLiteral? bound.chars with
    | some found => exact .matched (Nat.le_refl _)
    | none => exact .failed (Nat.le_refl _) rfl
  | none =>
    cases default with
    | none => exact .failed (Nat.le_refl _) rfl
    | some inner =>
      have first : Judged id c.generation t.generations (self inner name c s t) (judge inner c.texts s) :=
        refines inner knows
      simp only [Option.map_none, Option.map_some]
      generalize self inner name c s t = result at first ⊢
      generalize judge inner c.texts s = verdict at first ⊢
      cases first with
      | matched le => exact .matched le
      | failed le same => exact .failed le same
      | fatal same le lt => exact .fatal same le lt
      | exhausted => exact .exhausted

theorem operator_refines (label : Option String) (operator : Operator) :
    (operator.recognizer self label).Refines (operator.judge judge label) := by
  cases operator with
  | pending name => exact fun _ _ _ _ _ => .failed (Nat.le_refl _) rfl
  | terminal terminal =>
    intro rule c s t _
    simp only [Operator.recognizer, Operator.judge, Recognizer.terminal, Judge.terminal]
    cases terminal.regex.match? s with
    | some m => exact .matched (Nat.le_refl _)
    | none => exact .failed (Nat.le_refl _) rfl
  | call target => exact refines target
  | cut inner => exact refines inner
  | seq items => exact sequence_refines refines label items
  | choice alternatives =>
    intro rule c s t _
    obtain ⟨encloses, texts, -⟩ := c.enclose_spec false t
    have all : Judged id c.generation t.generations
        (choiceFrom (label.getD Tree.choiceTag) rule (c.enclose false t).1 s (alternatives.map self) 0 []
          (c.enclose false t).2)
        (Judge.choiceFrom (label.getD Tree.choiceTag) c.texts s (alternatives.map judge) 0) :=
      texts ▸ choiceFrom_judged refines alternatives 0 [] encloses
    exact all
  | list element separator style cutSeparator => exact list_refines refines label element separator style cutSeparator
  | quant term min max => exact repetition_refines refines label term min max
  | backref name default => exact backref_refines refines name default

end Operators
end Recognizer

/-- A run of a program decides what its judge says, to whatever depth. -/
theorem Program.recognizer_refines (p : Program) (fuel : Nat) (id : ParserId) :
    (p.recognizer fuel id).Refines (p.judge fuel id) := by
  induction fuel generalizing id with
  | zero => exact fun _ _ _ _ _ => .exhausted
  | succ fuel ih =>
    intro rule c s t knows
    simp only [recognizer, judge]
    cases p.parsers[id]? with
    | none => exact .exhausted
    | some parser =>
      have counted : t.attempt.Knows c.generation := knows
      exact Recognizer.operator_refines ih parser.label parser.operator counted
end GrammarKit
