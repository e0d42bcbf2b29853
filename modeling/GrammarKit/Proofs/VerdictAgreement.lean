/-
Module: GrammarKit.Proofs.VerdictAgreement
Purpose: Verdicts that agree up to the shape of trees.  Two judges agree if both match, with trees of the same text
  and the same rest, or both fail; either one may also run out of depth where it is allowed to.  Operators that
  commit to nothing and bind nothing agree if their parts do.
Main exports: Verdict.Agrees, SameText, Operator.Plain, Judge.operator_agrees
-/
import Mathlib.Data.List.Forall2
import GrammarKit.Proofs.Leniency

namespace GrammarKit

/-! ### Verdicts -/

/-- Both verdicts are matches with related values, or failures that leave a choice, or none.  The first one alone may
have run out of depth if `early` holds, the second one alone if `late` holds. -/
inductive Verdict.Agrees (early late : Prop) {α β : Type} (R : α → β → Prop) : Verdict α → Verdict β → Prop
  | matched {value value'} : R value value' → Agrees early late R (.matched value) (.matched value')
  | failed : Agrees early late R .failed .failed
  | exhausted : Agrees early late R .exhausted .exhausted
  | early {v'} : early → Agrees early late R .exhausted v'
  | late {v} : late → Agrees early late R v .exhausted

theorem Verdict.andThen_andThen {α β γ : Type} (v : Verdict α) (next : α → Verdict β) (otherwise : Verdict β)
    (last : β → Verdict γ) (instead : Verdict γ) : (v.andThen next otherwise).andThen last instead
      = v.andThen (fun value => (next value).andThen last instead) (otherwise.andThen last instead) := by
  cases v <;> rfl

theorem Verdict.andThen_ne_failed {α β : Type} {v : Verdict α} {next : α → Verdict β} {otherwise : Verdict β}
    (goesOn : ∀ value, next value ≠ .failed) (fails : v = .failed → otherwise ≠ .failed) :
    v.andThen next otherwise ≠ .failed := by
  cases v with
  | matched value => exact goesOn value
  | failed => exact fails rfl
  | fatal => exact nofun
  | exhausted => exact nofun

namespace Verdict.Agrees

variable {early late : Prop} {α β α' β' : Type} {R : α → α' → Prop} {S : β → β' → Prop} {v : Verdict α}
  {v' : Verdict α'}

/-- Steps that agree are followed by steps that agree. -/
theorem andThen (h : v.Agrees early late R v') {next : α → Verdict β} {next' : α' → Verdict β'}
    {otherwise : Verdict β} {otherwise' : Verdict β'}
    (goesOn : ∀ value value', R value value' → (next value).Agrees early late S (next' value'))
    (fails : otherwise.Agrees early late S otherwise') :
    (v.andThen next otherwise).Agrees early late S (v'.andThen next' otherwise') := by
  cases h with
  | matched related => exact goesOn _ _ related
  | failed => exact fails
  | exhausted => exact .exhausted
  | early allowed => exact .early allowed
  | late allowed => exact .late allowed

/-- What is known of the value of the first verdict. -/
theorem knowing (h : v.Agrees early late R v') {P : α → Prop} (known : ∀ value, v = .matched value → P value) :
    v.Agrees early late (fun value value' => R value value' ∧ P value) v' := by
  cases h with
  | matched related => exact .matched ⟨related, known _ rfl⟩
  | failed => exact .failed
  | exhausted => exact .exhausted
  | early allowed => exact .early allowed
  | late allowed => exact .late allowed

/-- What the second verdict is turned into may still agree with the first one. -/
theorem andThen_right (h : v.Agrees early late R v') {S : α → β' → Prop} {next' : α' → Verdict β'}
    {otherwise' : Verdict β'}
    (goesOn : ∀ value value', R value value' → (Verdict.matched value).Agrees early late S (next' value'))
    (fails : v = .failed → (Verdict.failed).Agrees early late S otherwise') :
    v.Agrees early late S (v'.andThen next' otherwise') := by
  cases h with
  | matched related => exact goesOn _ _ related
  | failed => exact fails rfl
  | exhausted => exact .exhausted
  | early allowed => exact .early allowed
  | late allowed => exact .late allowed

/-- Where the second verdict may not be late, it comes after a first one. -/
theorem ends_after (h : v.Agrees early False R v') (ends : v ≠ .exhausted) :
    v' ≠ .exhausted ∧ v.Agrees False False R v' := by
  cases h with
  | matched related => exact ⟨nofun, .matched related⟩
  | failed => exact ⟨nofun, .failed⟩
  | exhausted => exact absurd rfl ends
  | early => exact absurd rfl ends
  | late never => exact never.elim

/-- Where the first verdict may not be early, it comes before a second one. -/
theorem ends_before (h : v.Agrees False late R v') (ends : v' ≠ .exhausted) : v ≠ .exhausted := by
  cases h with
  | matched => exact nofun
  | failed => exact nofun
  | exhausted => exact absurd rfl ends
  | early never => exact never.elim
  | late => exact absurd rfl ends

end Verdict.Agrees

/-- The second verdict is the first one, or none if that is allowed. -/
def Verdict.UpTo (late : Prop) {α : Type} (v v' : Verdict α) : Prop :=
  v' = v ∨ late ∧ v' = .exhausted

namespace Verdict.UpTo

variable {early late : Prop} {α β : Type} {v v' : Verdict α}

theorem refl (v : Verdict α) : v.UpTo late v :=
  .inl rfl

theorem andThen (h : v.UpTo late v') {next next' : α → Verdict β} {otherwise : Verdict β}
    (goesOn : ∀ value, (next value).UpTo late (next' value)) :
    (v.andThen next otherwise).UpTo late (v'.andThen next' otherwise) := by
  rcases h with rfl | ⟨allowed, rfl⟩
  · cases v' with
    | matched value => exact goesOn value
    | failed => exact .refl _
    | fatal => exact .refl _
    | exhausted => exact .refl _
  · exact .inr ⟨allowed, rfl⟩

end Verdict.UpTo

theorem Verdict.Agrees.upTo {early late : Prop} {α β : Type} {R : α → β → Prop} {v : Verdict α} {v' v'' : Verdict β}
    (h : v.Agrees early late R v') (same : v'.UpTo late v'') : v.Agrees early late R v'' := by
  rcases same with rfl | ⟨allowed, rfl⟩
  · exact h
  · exact .late allowed

/-! ### Trees -/

/-- Trees of the same text, and the same rest. -/
def SameText (found found' : Tree × Slice) : Prop :=
  found'.1.chars = found.1.chars ∧ found'.2 = found.2

/-- As many trees, of the same text together, and the same rest. -/
structure SameTexts (found found' : List Tree × Slice) : Prop where
  length : found'.1.length = found.1.length
  chars : found'.1.flatMap Tree.chars = found.1.flatMap Tree.chars
  rest : found'.2 = found.2

theorem SameTexts.cons {first first' : Tree × Slice} {others others' : List Tree × Slice} (h : SameText first first')
    (h' : SameTexts others others') : SameTexts (first.1 :: others.1, others.2) (first'.1 :: others'.1, others'.2) := by
  refine ⟨congrArg (· + 1) h'.length, ?_, h'.rest⟩
  simp only [List.flatMap_cons, h.1, h'.chars]

theorem SameTexts.push {trees trees' : Array Tree} {tree tree' : Tree} {rest rest' : Slice}
    (h : SameTexts (trees.toList, rest) (trees'.toList, rest')) (same : tree'.chars = tree.chars) (next : Slice) :
    SameTexts ((trees.push tree).toList, next) ((trees'.push tree').toList, next) := by
  have length := h.length
  have chars := h.chars
  dsimp only at length chars
  refine ⟨?_, ?_, rfl⟩
  · simp only [Array.toList_push, List.length_append, length, List.length_cons, List.length_nil]
  · simp only [Array.toList_push, List.flatMap_append, chars, List.flatMap_singleton, same]

theorem SameTexts.pad {trees trees' : Array Tree} {tree tree' : Tree} {rest rest' : Slice}
    (h : SameTexts (trees.toList, rest) (trees'.toList, rest')) (same : tree'.chars = tree.chars) (min : Nat)
    (next : Slice) :
    SameTexts ((Recognizer.padRepetitions min trees tree).toList, next)
      ((Recognizer.padRepetitions min trees' tree').toList, next) := by
  have size : trees'.size = trees.size := by simpa using h.length
  have chars := h.chars
  dsimp only at chars
  refine ⟨?_, ?_, rfl⟩
  · simp only [Recognizer.padRepetitions, Array.toList_append, Array.toList_replicate, List.length_append,
      List.length_replicate, Array.length_toList, size]
  · simp only [Recognizer.padRepetitions, Array.toList_append, Array.toList_replicate, List.flatMap_append, size, chars,
      List.flatMap_replicate, same]

/-! ### Operators -/

/-- An item of a sequence that commits to nothing and binds nothing. -/
def Judge.plain (run : Judge) : Judge.Step :=
  ⟨none, false, run⟩

/-- An operator that commits to nothing, binds nothing and refers to nothing that is bound. -/
def Operator.Plain : Operator → Prop
  | .seq items => ∀ item ∈ items, item.bind = none ∧ item.cut = false
  | .list _ _ _ cutSeparator => cutSeparator = false
  | .cut _ => False
  | .backref _ _ => False
  | _ => True

namespace Judge

/-- Two judges agree at every place, with some texts bound. -/
def Agree (early late : Prop) (b : Texts) (run run' : Judge) : Prop :=
  ∀ s, (run b s).Agrees early late SameText (run' b s)

section Operators

variable {early late : Prop} {b : Texts}

/-- A plain item and the items after it. -/
theorem sequenceFrom_plain (run : Judge) (steps : List Step) (b : Texts) (s : Slice) :
    sequenceFrom (plain run :: steps) false b s =
      (run b s).andThen
        (fun first => (sequenceFrom steps false b first.2).andThen
          (fun others => .matched (first.1 :: others.1, others.2)) .failed)
        .failed :=
  rfl

theorem sequenceFrom_agrees {runs runs' : List Judge} (agree : List.Forall₂ (Agree early late b) runs runs')
    (s : Slice) : (sequenceFrom (runs.map plain) false b s).Agrees early late SameTexts
      (sequenceFrom (runs'.map plain) false b s) := by
  induction agree generalizing s with
  | nil => exact .matched ⟨rfl, rfl, rfl⟩
  | @cons run run' runs runs' first _ ih =>
    rw [List.map_cons, List.map_cons, sequenceFrom_plain, sequenceFrom_plain]
    refine (first s).andThen (fun found found' same => ?_) .failed
    rw [same.2]
    exact (ih found.2).andThen (fun others others' sames => .matched (.cons same sames)) .failed

theorem sequence_agrees {runs runs' : List Judge} (agree : List.Forall₂ (Agree early late b) runs runs')
    (label : Option String) :
    Agree early late b (sequence label (runs.map plain)) (sequence label (runs'.map plain)) := by
  intro s
  refine (sequenceFrom_agrees agree s).andThen (fun found found' same => .matched ⟨?_, same.rest⟩) .failed
  rw [Tree.chars_node, Tree.chars_node, same.chars]

theorem choiceFrom_agrees {runs runs' : List Judge} (agree : List.Forall₂ (Agree early late b) runs runs')
    (tag : String) (s : Slice) (index : Nat) :
    (choiceFrom tag b s runs index).Agrees early late SameText (choiceFrom tag b s runs' index) := by
  induction agree generalizing index with
  | nil => exact .failed
  | cons first _ ih =>
    refine (first s).andThen (fun found found' same => .matched ⟨?_, same.2⟩) (ih _)
    rw [Tree.chars_node, Tree.chars_node, List.flatMap_singleton, List.flatMap_singleton, same.1]

theorem repeatFrom_agrees {run run' : Judge} (agree : Agree early late b run run') (min max fuel : Nat) (s : Slice)
    {trees trees' : Array Tree} {rest rest' : Slice} (sames : SameTexts (trees.toList, rest) (trees'.toList, rest')) :
    (repeatFrom run b min max fuel trees s).Agrees early late SameTexts (repeatFrom run' b min max fuel trees' s) := by
  induction fuel generalizing s trees trees' rest rest' with
  | zero => exact .exhausted
  | succ fuel ih =>
    have size : trees'.size = trees.size := by simpa using sames.length
    rw [repeatFrom, repeatFrom, size]
    split
    · exact .matched ⟨sames.length, sames.chars, rfl⟩
    · refine (agree s).andThen (fun found found' same => ?_) (.matched ⟨sames.length, sames.chars, rfl⟩)
      rw [same.2]
      split
      · exact .matched (sames.pad same.1 min found.2)
      · exact ih found.2 (sames.push same.1 found.2)

theorem repetition_agrees {run run' : Judge} (agree : Agree early late b run run') (label : Option String)
    (min max : Nat) : Agree early late b (repetition label run min max) (repetition label run' min max) := by
  intro s
  have nothing : SameTexts ((#[] : Array Tree).toList, s) ((#[] : Array Tree).toList, s) := ⟨rfl, rfl, rfl⟩
  refine (repeatFrom_agrees agree min max _ s nothing).andThen (fun found found' same => ?_) .failed
  rw [same.length]
  split
  · refine .matched ⟨?_, same.rest⟩
    rw [Tree.chars_node, Tree.chars_node, same.chars]
  · exact .failed

/-! ### Lists -/

/-- As many slots, odd in number, of the same text together, and the same rest. -/
structure SameSlots (found found' : List Tree × Slice) : Prop where
  texts : SameTexts found found'
  odd : ∃ left, found.1.length = 2 * left + 1

/-- The same node of a list, up to the shape of the trees in its slots. -/
theorem SameSlots.node {found found' : List Tree × Slice} (h : SameSlots found found') (tag : String) (assoc : Assoc) :
    SameText (.ofSlots tag assoc found.1, found.2) (.ofSlots tag assoc found'.1, found'.2) := by
  obtain ⟨left, odd⟩ := h.odd
  refine ⟨?_, h.texts.rest⟩
  dsimp only
  rw [Tree.chars_ofSlots tag assoc odd, Tree.chars_ofSlots tag assoc (h.texts.length.trans odd), h.texts.chars]

/-- Both found no pair, or pairs of the same texts. -/
inductive SamePair : Option Recognizer.Pair → Option Recognizer.Pair → Prop
  | none : SamePair none none
  | some {separator separator' element element' rest} : separator'.chars = separator.chars →
      Option.Rel (fun tree tree' => Tree.chars tree' = tree.chars) element element' →
      SamePair (some ⟨separator, element, rest⟩) (some ⟨separator', element', rest⟩)

section Lists

variable {element element' separator separator' : Judge} (elements : Agree early late b element element')
  (separators : Agree early late b separator separator') (style : ListStyle)

include elements separators

theorem pair_agrees (mayElide : Bool) (s : Slice) :
    (pair ⟨element, separator, style, false⟩ b mayElide s).Agrees early late SamePair
      (pair ⟨element', separator', style, false⟩ b mayElide s) := by
  refine (separators s).andThen (fun mark mark' same => ?_) (.matched .none)
  rw [same.2]
  refine (elements mark.2).andThen (fun tree tree' same' => ?_) ?_
  · rw [same'.2]
    exact .matched (.some same.1 (.some same'.1))
  · cases mayElide with
    | true => exact .matched (.some same.1 .none)
    | false => exact .matched .none

theorem listHead_agrees (s : Slice) :
    (listHead ⟨element, separator, style, false⟩ b s).Agrees early late SameSlots
      (listHead ⟨element', separator', style, false⟩ b s) := by
  refine (elements s).andThen (fun tree tree' same => ?_) ?_
  · refine .matched ⟨⟨rfl, ?_, same.2⟩, 0, rfl⟩
    rw [List.flatMap_singleton, List.flatMap_singleton, same.1]
  · dsimp only
    split
    · refine (pair_agrees elements separators style false s).andThen (fun found found' same => ?_) .failed
      cases same with
      | none => exact .failed
      | some marks trees =>
        cases trees with
        | none => exact .failed
        | some same =>
          refine .matched ⟨⟨rfl, ?_, rfl⟩, 1, rfl⟩
          simp only [List.flatMap_cons, marks, same]
    · exact .failed

theorem listTail_agrees (fuel : Nat) (s : Slice) {slots slots' : Array Tree} {rest rest' : Slice}
    (sames : SameSlots (slots.toList, rest) (slots'.toList, rest')) :
    (listTail ⟨element, separator, style, false⟩ b fuel slots s).Agrees early late SameSlots
      (listTail ⟨element', separator', style, false⟩ b fuel slots' s) := by
  induction fuel generalizing s slots slots' rest rest' with
  | zero => exact .exhausted
  | succ fuel ih =>
    refine (pair_agrees elements separators style style.trailing s).andThen (fun found found' same => ?_) .failed
    cases same with
    | none => exact .matched ⟨⟨sames.texts.length, sames.texts.chars, rfl⟩, sames.odd⟩
    | @some mark mark' tree tree' next marks trees =>
      have text : (tree'.getD .elided).chars = (tree.getD .elided).chars := by
        cases trees with
        | none => rfl
        | some same => exact same
      have isNone : tree'.isNone = tree.isNone := by cases trees <;> rfl
      have odd : ∃ left, ((slots.push mark).push (tree.getD .elided)).toList.length = 2 * left + 1 := by
        obtain ⟨left, odd⟩ := sames.odd
        exact ⟨left + 1, by simp at odd ⊢; omega⟩
      have pushed : SameSlots (((slots.push mark).push (tree.getD .elided)).toList, next)
          (((slots'.push mark').push (tree'.getD .elided)).toList, next) :=
        ⟨(sames.texts.push marks next).push text next, odd⟩
      dsimp only
      rw [isNone]
      split
      · exact .matched pushed
      · exact ih next pushed

theorem list_agrees (label : Option String) : Agree early late b (list label ⟨element, separator, style, false⟩)
    (list label ⟨element', separator', style, false⟩) := by
  intro s
  refine (listHead_agrees elements separators style s).andThen (fun head head' same => ?_) .failed
  rw [same.texts.rest]
  exact (listTail_agrees elements separators style _ head.2 same).andThen
    (fun found found' same => .matched (same.node _ _)) .failed

end Lists

/-- Plain items are run one after the other, with the same texts bound throughout. -/
theorem steps_plain {items : List Item} (plain : ∀ item ∈ items, item.bind = none ∧ item.cut = false)
    (self : ParserId → Judge) :
    (items.map fun item => (⟨item.bind, item.cut, self item.parser⟩ : Step))
      = (items.map fun item => self item.parser).map Judge.plain := by
  rw [List.map_map]
  refine List.map_congr_left fun item member => ?_
  obtain ⟨unbound, uncut⟩ := plain item member
  rw [unbound, uncut]
  rfl

theorem plain_of_likes {R : ParserId → ParserId → Prop} {items items' : List Item}
    (likes : List.Forall₂ (Item.Like false R) items items')
    (plain : ∀ item ∈ items, item.bind = none ∧ item.cut = false) :
    ∀ item ∈ items', item.bind = none ∧ item.cut = false := by
  induction likes with
  | nil => exact List.forall_mem_nil _
  | cons like _ ih =>
    obtain ⟨⟨unbound, uncut⟩, others⟩ := List.forall_mem_cons.mp plain
    have same := like.cut.resolve_right fun softer => Bool.false_ne_true softer.1
    exact List.forall_mem_cons.mpr ⟨⟨like.bind.trans unbound, same.trans uncut⟩, ih others⟩

/-- Plain operators agree if their parts do. -/
theorem operator_agrees {R : ParserId → ParserId → Prop} {self self' : ParserId → Judge} {operator operator' : Operator}
    (like : operator.Like false R operator') (plain : operator.Plain)
    (parts : ∀ {id id'}, R id id' → Agree early late b (self id) (self' id')) (label : Option String) :
    Agree early late b (operator.judge self label) (operator'.judge self' label) := by
  cases like with
  | pending => exact fun _ => .failed
  | terminal same =>
    intro s
    simp only [Operator.judge, terminal, same]
    split
    · exact .matched ⟨rfl, rfl⟩
    · exact .failed
  | call target => exact parts target
  | cut inner => exact absurd plain id
  | @seq items items' likes =>
    rw [Operator.judge, Operator.judge, steps_plain plain, steps_plain (plain_of_likes likes plain)]
    refine sequence_agrees ?_ label
    rw [List.forall₂_map_left_iff, List.forall₂_map_right_iff]
    exact likes.imp fun _ _ like => parts like.parser
  | choice alternatives =>
    refine fun s => choiceFrom_agrees ?_ _ s 0
    rw [List.forall₂_map_left_iff, List.forall₂_map_right_iff]
    exact alternatives.imp fun _ _ related => parts related
  | @list _ _ _ _ style cut cut' element separator softer =>
    obtain rfl : cut = false := plain
    obtain rfl : cut' = false := softer.resolve_right fun softer => Bool.false_ne_true softer.1
    exact list_agrees (parts element) (parts separator) style label
  | quant term => exact repetition_agrees (parts term) label _ _
  | backref default => exact absurd plain id

end Operators
end Judge
end GrammarKit
