/-
Module: GrammarKit.Proofs.Replies
Purpose: Comparing recognizers up to what they count.  Two recognizers agree if they give the same result with the
  same generations whenever they are run in contexts that differ only in names that nobody asks for, unless one of
  them has gone too deep.  Operators whose parts agree do so themselves.
Main exports: Side, Agree, Context.Like, Recognizer.Agrees, and one lemma for each operator
-/
import Mathlib.Tactic.Common
import GrammarKit.Proofs.Refinement

namespace GrammarKit

/-! ### Replies -/

/-- Which of two runs may go too deep. -/
inductive Side where
  | left
  | right

section Replies

variable {α : Type}

/-- Two replies with the same result and the same number of generations, unless the one on the given side has gone
too deep. -/
inductive Agree : Side → Outcome α × Tally → Outcome α × Tally → Prop
  | left {t reply} : Agree .left (.exhausted, t) reply
  | right {t reply} : Agree .right reply (.exhausted, t)
  | same {side outcome t t'} : t.generations = t'.generations → Agree side (outcome, t) (outcome, t')

/-- A reply that has not gone too deep is that of the other side. -/
theorem Agree.eq_of_left {reply reply' : Outcome α × Tally} (h : Agree .left reply reply')
    (ends : reply.1 ≠ .exhausted) : reply'.1 = reply.1 ∧ reply'.2.generations = reply.2.generations := by
  cases h with
  | left => exact absurd rfl ends
  | same same => exact ⟨rfl, same.symm⟩

theorem Agree.eq_of_right {reply reply' : Outcome α × Tally} (h : Agree .right reply reply')
    (ends : reply'.1 ≠ .exhausted) : reply.1 = reply'.1 ∧ reply.2.generations = reply'.2.generations := by
  cases h with
  | right => exact absurd rfl ends
  | same same => exact ⟨rfl, same⟩

end Replies

/-! ### Contexts -/

/-- Contexts that differ at most in what is bound to other names. -/
structure Context.Like (names : List String) (c c' : Context) : Prop where
  generation : c.generation = c'.generation
  find : ∀ name ∈ names, c.find? name = c'.find? name

theorem Context.Like.refl (names : List String) (c : Context) : c.Like names c :=
  ⟨rfl, fun _ _ => rfl⟩

/-- The same for the context inside an operator. -/
structure Enclosed.Like (names : List String) (e e' : Enclosed) : Prop where
  context : e.context.Like names e'.context
  outer : e.outer = e'.outer
  own : e.own = e'.own

theorem Context.Like.enclose {names : List String} {c c' : Context} (h : c.Like names c') (force : Bool)
    {t t' : Tally} (same : t.generations = t'.generations) :
    (c.enclose force t).1.Like names (c'.enclose force t').1 ∧
      (c.enclose force t).2.generations = (c'.enclose force t').2.generations := by
  simp only [Context.enclose, h.generation]
  split
  · exact ⟨⟨h, rfl, rfl⟩, same⟩
  · rw [same]
    exact ⟨⟨⟨rfl, h.find⟩, rfl, rfl⟩, rfl⟩

namespace Recognizer

theorem find?_after (step : Step) (c : Context) (tree : Tree) (name : String) :
    (step.after c tree).find? name = if step.bind = some name then some tree else c.find? name := by
  cases bound : step.bind with
  | none => simp [Step.after, bound]
  | some other => simp [Step.after, bound, Context.bind, Context.find?, Table.lookup]

/-- Recognizers that give the same results in contexts that differ at most in other names, unless one of them goes
too deep. -/
def Agrees (side : Side) (names : List String) (run run' : Recognizer) : Prop :=
  ∀ ⦃rule c c' s t t'⦄, c.Like names c' → t.generations = t'.generations →
    Agree side (run rule c s t) (run' rule c' s t')

/-- Items that do the same and bind the same of the names that matter. -/
structure Step.Agrees (side : Side) (names : List String) (step step' : Step) : Prop where
  bind : ∀ name ∈ names, step.bind = some name ↔ step'.bind = some name
  cut : step.cut = step'.cut
  run : Recognizer.Agrees side names step.run step'.run

section Operators

variable {side : Side} {names : List String} {rule : String} {c c' : Context} {e e' : Enclosed} {s : Slice}
  {t t' : Tally}

theorem Step.Agrees.after {step step' : Step} (h : step.Agrees side names step') (like : c.Like names c')
    (tree : Tree) : (step.after c tree).Like names (step'.after c' tree) := by
  constructor
  · rw [Step.after, Step.after]
    split <;> split <;> exact like.generation
  · intro name member
    rw [find?_after, find?_after, like.find name member]
    simp only [h.bind name member]

theorem terminal_agrees (regex : Regex) (expected : String) :
    Agrees side names (terminal regex expected) (terminal regex expected) := by
  intro rule c c' s t t' like same
  simp only [terminal, like.generation]
  cases regex.match? s with
  | some m => exact .same same
  | none => exact .same same

/-! #### Sequences -/

theorem sequenceFrom_agrees {labelled : Bool} {outer own : Option Nat} {steps steps' : List Step}
    (likes : List.Forall₂ (Step.Agrees side names) steps steps') (index : Nat) (crossed : Bool)
    (like : c.Like names c') (same : t.generations = t'.generations) :
    Agree side (sequenceFrom labelled rule outer own steps index crossed c s t)
      (sequenceFrom labelled rule outer own steps' index crossed c' s t') := by
  induction likes generalizing index crossed c c' s t t' with
  | nil => exact .same same
  | @cons step step' steps steps' parts _ ih =>
    have first : Agree side (step.run rule c s t) (step'.run rule c' s t') := parts.run like same
    simp only [sequenceFrom]
    generalize step.run rule c s t = reply at first ⊢
    generalize step'.run rule c' s t' = reply' at first ⊢
    cases first with
    | left => exact .left
    | right => exact .right
    | @same _ outcome t t' same =>
      cases outcome with
      | matched found =>
        obtain ⟨tree, next⟩ := found
        have others : Agree side (sequenceFrom labelled rule outer own steps (index + 1) (crossed || step'.cut)
            (step.after c tree) next t) (sequenceFrom labelled rule outer own steps' (index + 1)
            (crossed || step'.cut) (step'.after c' tree) next t') := ih _ _ (parts.after like tree) same
        dsimp only
        rw [parts.cut]
        generalize sequenceFrom labelled rule outer own steps _ _ _ next t = reply at others ⊢
        generalize sequenceFrom labelled rule outer own steps' _ _ _ next t' = reply' at others ⊢
        cases others with
        | left => exact .left
        | right => exact .right
        | @same _ outcome t t' same =>
          cases outcome <;> exact .same same
      | failed f => exact .same same
      | exhausted => exact .same same

theorem sequence_agrees (label : Option String) {steps steps' : List Step}
    (likes : List.Forall₂ (Step.Agrees side names) steps steps') :
    Agrees side names (sequence label steps) (sequence label steps') := by
  intro rule c c' s t t' like same
  have force : steps.any Step.cut = steps'.any Step.cut := by
    induction likes with
    | nil => rfl
    | cons first _ ih => rw [List.any_cons, List.any_cons, first.cut, ih]
  obtain ⟨⟨inside, outer, own⟩, same⟩ := like.enclose (steps'.any Step.cut) same
  simp only [sequence, force, outer, own]
  have all : Agree side (sequenceFrom label.isSome rule (c'.enclose (steps'.any Step.cut) t').1.outer
      (c'.enclose (steps'.any Step.cut) t').1.own steps 0 false _ s _) (sequenceFrom _ _ _ _ steps' 0 false _ s _) :=
    sequenceFrom_agrees likes 0 false inside same
  generalize sequenceFrom _ rule _ _ steps 0 false _ s _ = reply at all ⊢
  generalize sequenceFrom _ rule _ _ steps' 0 false _ s _ = reply' at all ⊢
  cases all with
  | left => exact .left
  | right => exact .right
  | @same _ outcome t t' same => cases outcome <;> exact .same same

/-! #### Choices and repetitions -/

theorem choiceFrom_agrees {tag : String} {runs runs' : List Recognizer}
    (likes : List.Forall₂ (Agrees side names) runs runs') (like : e.Like names e') (index : Nat)
    (failures : List Failure) (same : t.generations = t'.generations) :
    Agree side (choiceFrom tag rule e s runs index failures t) (choiceFrom tag rule e' s runs' index failures t') := by
  induction likes generalizing index failures t t' with
  | nil =>
    simp only [choiceFrom, like.outer]
    exact .same same
  | @cons run run' runs runs' parts _ ih =>
    have first : Agree side (run rule e.context s t) (run' rule e'.context s t') := parts like.context same
    simp only [choiceFrom, like.own]
    generalize run rule e.context s t = reply at first ⊢
    generalize run' rule e'.context s t' = reply' at first ⊢
    cases first with
    | left => exact .left
    | right => exact .right
    | @same _ outcome t t' same =>
      cases outcome with
      | matched found => exact .same same
      | failed f =>
        dsimp only
        split
        · exact .same same
        · exact ih _ _ same
      | exhausted => exact .same same

theorem choice_agrees (label : Option String) {runs runs' : List Recognizer}
    (likes : List.Forall₂ (Agrees side names) runs runs') :
    Agrees side names (choice label runs) (choice label runs') := by
  intro rule c c' s t t' like same
  obtain ⟨inside, same⟩ := like.enclose false same
  exact choiceFrom_agrees likes inside 0 [] same

theorem repeatFrom_agrees {run run' : Recognizer} (parts : Agrees side names run run') {min max fuel : Nat}
    (trees : Array Tree) (like : e.Like names e') (same : t.generations = t'.generations) :
    Agree side (repeatFrom run rule e min max fuel trees s t) (repeatFrom run' rule e' min max fuel trees s t') := by
  induction fuel generalizing trees s t t' with
  | zero => exact .same same
  | succ fuel ih =>
    have first : Agree side (run rule e.context s t) (run' rule e'.context s t') := parts like.context same
    simp only [repeatFrom, like.own]
    split
    · exact .same same
    · generalize run rule e.context s t = reply at first ⊢
      generalize run' rule e'.context s t' = reply' at first ⊢
      cases first with
      | left => exact .left
      | right => exact .right
      | @same _ outcome t t' same =>
        cases outcome with
        | matched found =>
          dsimp only
          split
          · exact .same same
          · exact ih _ same
        | failed f =>
          dsimp only
          split <;> exact .same same
        | exhausted => exact .same same

theorem repetition_agrees (label : Option String) {run run' : Recognizer} (parts : Agrees side names run run')
    (min max : Nat) : Agrees side names (repetition label run min max) (repetition label run' min max) := by
  intro rule c c' s t t' like same
  obtain ⟨inside, same⟩ := like.enclose false same
  have loop : Agree side
      (repeatFrom run rule (c.enclose false t).1 min max (s.chars.length + 2) #[] s (c.enclose false t).2)
      (repeatFrom run' rule (c'.enclose false t').1 min max (s.chars.length + 2) #[] s (c'.enclose false t').2) :=
    repeatFrom_agrees parts #[] inside same
  simp only [repetition, inside.outer]
  generalize repeatFrom run rule _ min max _ #[] s _ = reply at loop ⊢
  generalize repeatFrom run' rule _ min max _ #[] s _ = reply' at loop ⊢
  cases loop with
  | left => exact .left
  | right => exact .right
  | @same _ outcome t t' same =>
    cases outcome with
    | matched found =>
      dsimp only
      split <;> exact .same same
    | failed f => exact .same same
    | exhausted => exact .same same

/-! #### Lists -/

/-- Parts of lists that do the same. -/
structure ListParts.Agrees (side : Side) (names : List String) (parts parts' : ListParts) : Prop where
  element : Recognizer.Agrees side names parts.element parts'.element
  separator : Recognizer.Agrees side names parts.separator parts'.separator
  style : parts.style = parts'.style
  cutSeparator : parts.cutSeparator = parts'.cutSeparator

section Lists

variable {parts parts' : ListParts} (agrees : parts.Agrees side names parts')
include agrees

theorem pair_agrees (like : e.Like names e') (mayElide : Bool) (same : t.generations = t'.generations) :
    Agree side (pair parts rule e mayElide s t) (pair parts' rule e' mayElide s t') := by
  obtain ⟨inside, same⟩ :
      (pairInner parts.cutSeparator e t).1.Like names (pairInner parts'.cutSeparator e' t').1 ∧
      (pairInner parts.cutSeparator e t).2.generations = (pairInner parts'.cutSeparator e' t').2.generations := by
    simp only [pairInner, agrees.cutSeparator]
    split
    · exact like.context.enclose true same
    · exact ⟨⟨like.context, like.own, like.own⟩, same⟩
  have opened (parts : ListParts) (e : Enclosed) (t : Tally) :
      (if parts.cutSeparator then e.context.enclose true t else (⟨e.context, e.own, e.own⟩, t))
        = pairInner parts.cutSeparator e t := rfl
  simp only [pair, opened]
  simp only [like.own, inside.own, inside.outer]
  generalize pairInner parts.cutSeparator e t = inner at inside same ⊢
  generalize pairInner parts'.cutSeparator e' t' = inner' at inside same ⊢
  have first : Agree side (parts.separator rule inner.1.context s inner.2)
      (parts'.separator rule inner'.1.context s inner'.2) := agrees.separator inside.context same
  generalize parts.separator rule inner.1.context s inner.2 = reply at first ⊢
  generalize parts'.separator rule inner'.1.context s inner'.2 = reply' at first ⊢
  cases first with
  | left => exact .left
  | right => exact .right
  | @same _ outcome t t' same =>
    cases outcome with
    | matched found =>
      obtain ⟨mark, next⟩ := found
      have second : Agree side (parts.element rule inner.1.context next t)
          (parts'.element rule inner'.1.context next t') := agrees.element inside.context same
      dsimp only
      generalize parts.element rule inner.1.context next t = reply at second ⊢
      generalize parts'.element rule inner'.1.context next t' = reply' at second ⊢
      cases second with
      | left => exact .left
      | right => exact .right
      | @same _ outcome t t' same =>
        cases outcome with
        | matched found => exact .same same
        | failed f =>
          simp only [agrees.cutSeparator]
          split
          · split <;> exact .same same
          · split
            · exact .same same
            · split <;> exact .same same
        | exhausted => exact .same same
    | failed f =>
      dsimp only
      split <;> split <;> exact .same same
    | exhausted => exact .same same

theorem listHead_agrees (like : e.Like names e') (same : t.generations = t'.generations) :
    Agree side (listHead parts rule e s t) (listHead parts' rule e' s t') := by
  have first : Agree side (parts.element rule e.context s t) (parts'.element rule e'.context s t') :=
    agrees.element like.context same
  simp only [listHead, like.own, like.outer, agrees.style]
  generalize parts.element rule e.context s t = reply at first ⊢
  generalize parts'.element rule e'.context s t' = reply' at first ⊢
  cases first with
  | left => exact .left
  | right => exact .right
  | @same _ outcome t t' same =>
    cases outcome with
    | matched found => exact .same same
    | failed f =>
      dsimp only
      split
      · exact .same same
      · split
        · exact .same same
        · have pairs : Agree side (pair parts rule e false s t) (pair parts' rule e' false s t') :=
            pair_agrees agrees like false same
          generalize pair parts rule e false s t = reply at pairs ⊢
          generalize pair parts' rule e' false s t' = reply' at pairs ⊢
          cases pairs with
          | left => exact .left
          | right => exact .right
          | @same _ outcome t t' same =>
            cases outcome with
            | matched found =>
              obtain _ | ⟨_, _ | _, _⟩ := found
              · exact .same same
              · exact .same same
              · exact .same same
            | failed f => exact .same same
            | exhausted => exact .same same
    | exhausted => exact .same same

theorem listTail_agrees (like : e.Like names e') {fuel : Nat} (slots : Array Tree)
    (same : t.generations = t'.generations) :
    Agree side (listTail parts rule e fuel slots s t) (listTail parts' rule e' fuel slots s t') := by
  induction fuel generalizing slots s t t' with
  | zero => exact .same same
  | succ fuel ih =>
    have pairs : Agree side (pair parts rule e parts'.style.trailing s t)
        (pair parts' rule e' parts'.style.trailing s t') := pair_agrees agrees like _ same
    simp only [listTail, agrees.style]
    generalize pair parts rule e _ s t = reply at pairs ⊢
    generalize pair parts' rule e' _ s t' = reply' at pairs ⊢
    cases pairs with
    | left => exact .left
    | right => exact .right
    | @same _ outcome t t' same =>
      cases outcome with
      | matched found =>
        cases found with
        | none => exact .same same
        | some found =>
          dsimp only
          split
          · exact .same same
          · exact ih _ same
      | failed f => exact .same same
      | exhausted => exact .same same

theorem list_agrees (label : Option String) : Agrees side names (list label parts) (list label parts') := by
  intro rule c c' s t t' like same
  obtain ⟨inside, same⟩ := like.enclose false same
  have head : Agree side (listHead parts rule (c.enclose false t).1 s (c.enclose false t).2)
      (listHead parts' rule (c'.enclose false t').1 s (c'.enclose false t').2) := listHead_agrees agrees inside same
  simp only [list, agrees.style]
  generalize listHead parts rule _ s _ = reply at head ⊢
  generalize listHead parts' rule _ s _ = reply' at head ⊢
  cases head with
  | left => exact .left
  | right => exact .right
  | @same _ outcome t t' same =>
    cases outcome with
    | matched found =>
      obtain ⟨slots, rest⟩ := found
      have tail : Agree side
          (listTail parts rule (c.enclose false _).1 (s.chars.length + 2) slots.toArray rest t)
          (listTail parts' rule (c'.enclose false _).1 (s.chars.length + 2) slots.toArray rest t') :=
        listTail_agrees agrees inside slots.toArray same
      dsimp only
      generalize listTail parts rule _ _ _ rest _ = reply at tail ⊢
      generalize listTail parts' rule _ _ _ rest _ = reply' at tail ⊢
      cases tail with
      | left => exact .left
      | right => exact .right
      | @same _ outcome t t' same => cases outcome <;> exact .same same
    | failed f => exact .same same
    | exhausted => exact .same same

end Lists

/-! #### Back references -/

theorem backref_agrees {name : String} (member : name ∈ names) {default default' : Option Recognizer}
    (parts : Option.Rel (Agrees side names) default default') :
    Agrees side names (backref name default) (backref name default') := by
  intro rule c c' s t t' like same
  simp only [backref, like.find name member, like.generation]
  cases c'.find? name with
  | some bound =>
    dsimp only
    cases s.splitLiteral? bound.chars <;> exact .same same
  | none =>
    cases parts with
    | none => exact .same same
    | @some run run' parts =>
      have first : Agree side (run name c s t) (run' name c' s t') := parts like same
      dsimp only
      generalize run name c s t = reply at first ⊢
      generalize run' name c' s t' = reply' at first ⊢
      cases first with
      | left => exact .left
      | right => exact .right
      | @same _ outcome t t' same => cases outcome <;> exact .same same

end Operators
end Recognizer
end GrammarKit
