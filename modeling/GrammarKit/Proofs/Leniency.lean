/-
Module: GrammarKit.Proofs.Leniency
Purpose: Comparing judges.  One verdict upholds another if they are the same, unless the recursion of the first
  went too deep, or a cutpoint was crossed in it and the second may be more lenient.  If the parts of an
  operator uphold each other wherever it may run them, so do the operators, even if the second one leaves out
  cutpoints.
Main exports: Verdict.Upholds, Texts.Leads, Operator.Like, Operator.judge_upholds
-/
import GrammarKit.Proofs.Derivation
import GrammarKit.Proofs.Refinement

namespace GrammarKit

/-! ### Verdicts -/

section Verdicts

variable {α β : Type} {lenient : Bool}

/-- The second verdict is that of the first, unless the first one is none, or fatal and the second one may be
more lenient. -/
def Verdict.Upholds (lenient : Bool) (v v' : Verdict α) : Prop :=
  v = .exhausted ∨ (lenient = true ∧ v = .fatal) ∨ v = v'

theorem Verdict.Upholds.refl (v : Verdict α) : v.Upholds lenient v :=
  .inr (.inr rfl)

theorem Verdict.Upholds.andThen {v v' : Verdict α} (h : v.Upholds lenient v') {next next' : α → Verdict β}
    {otherwise otherwise' : Verdict β}
    (goesOn : ∀ value, v = .matched value → (next value).Upholds lenient (next' value))
    (fails : otherwise.Upholds lenient otherwise') :
    (v.andThen next otherwise).Upholds lenient (v'.andThen next' otherwise') := by
  rcases h with rfl | ⟨allowed, rfl⟩ | rfl
  · exact .inl rfl
  · exact .inr (.inl ⟨allowed, rfl⟩)
  · cases v with
    | matched value => exact goesOn value rfl
    | failed => exact fails
    | fatal => exact .refl _
    | exhausted => exact .refl _

/-- A cutpoint and what it becomes: nothing else, unless cutpoints may be left out. -/
def Softer (lenient cut cut' : Bool) : Prop :=
  cut' = cut ∨ lenient = true ∧ cut' = false

theorem Softer.or {cut cut' other other' : Bool} (h : Softer lenient cut cut') (h' : Softer lenient other other') :
    Softer lenient (cut || other) (cut' || other') := by
  rcases h with rfl | ⟨allowed, rfl⟩ <;> rcases h' with rfl | ⟨allowed', rfl⟩
  · exact .inl rfl
  · cases cut' with
    | false => exact .inr ⟨allowed', rfl⟩
    | true => exact .inl rfl
  · cases other' with
    | false => exact .inr ⟨allowed, rfl⟩
    | true => exact .inl (Bool.or_true _).symm
  · exact .inr ⟨allowed, rfl⟩

/-- Behind a cutpoint that has become none, something else may happen. -/
theorem Softer.ite {cut cut' : Bool} (h : Softer lenient cut cut') {v : Verdict α} :
    Verdict.Upholds lenient (if cut then .fatal else v) (if cut' then .fatal else v) := by
  rcases h with rfl | ⟨allowed, rfl⟩
  · exact .refl _
  · cases cut with
    | false => exact .refl _
    | true => exact .inr (.inl ⟨allowed, rfl⟩)

end Verdicts

/-! ### Where an operator runs its parts -/

/-- The texts of some context. -/
def Texts.Real (b : Texts) : Prop :=
  ∃ c : Context, c.texts = b

/-- From some texts at a place, an operator may come to others at a later place.  At the same place it can only
have bound names to nothing. -/
structure Texts.Leads (names : List String) (b : Texts) (s : Slice) (b' : Texts) (rest : Slice) : Prop where
  follows : rest.Follows s
  here : rest = s → ∀ name, b' name = b name ∨ name ∈ names ∧ b' name = some []
  real : b'.Real

section Leads

variable {names : List String} {b b' last : Texts} {s next rest : Slice}

theorem Texts.Leads.refl (real : b.Real) (s : Slice) : b.Leads names s b s :=
  ⟨.refl s, fun _ _ => .inl rfl, real⟩

theorem Texts.Leads.trans (h : b.Leads names s b' next) (h' : b'.Leads names next last rest) :
    b.Leads names s last rest := by
  refine ⟨h'.follows.trans h.follows, fun same name => ?_, h'.real⟩
  obtain ⟨first, second⟩ := h.follows.eq_both h'.follows same
  rcases h'.here second name with kept | emptied
  · rw [kept]
    exact h.here first name
  · exact .inr emptied

theorem Texts.Leads.onward (real : b.Real) (follows : rest.Follows s) : b.Leads names s b rest :=
  ⟨follows, fun _ _ => .inl rfl, real⟩

/-- A judge whose trees stand for what it takes: without taking anything, it gives trees without text. -/
def Judge.Honest (run : Judge) : Prop :=
  ∀ ⦃b s tree rest⦄, b.Real → run b s = .matched (tree, rest) →
    rest.Follows s ∧ (rest = s → tree.chars = [])

theorem Texts.Leads.after {run : Judge} (honest : run.Honest) (real : b.Real) {tree : Tree}
    (found : run b s = .matched (tree, rest)) {bound : Option String} (known : ∀ name, bound = some name → name ∈ names)
    (cut : Bool) : b.Leads names s (Judge.Step.after ⟨bound, cut, run⟩ b tree) rest := by
  obtain ⟨follows, empty⟩ := honest real found
  cases bound with
  | none => exact .onward real follows
  | some name =>
    refine ⟨follows, fun same other => ?_, ?_⟩
    · simp only [Judge.Step.after, Texts.bind]
      split
      · next here => exact .inr ⟨here ▸ known name rfl, congrArg some (empty same)⟩
      · exact .inl rfl
    · obtain ⟨c, rfl⟩ := real
      exact ⟨c.bind name tree, c.texts_bind name tree⟩

/-- One judge upholds another wherever some texts at a place lead. -/
def Judge.Upholds (names : List String) (lenient : Bool) (b : Texts) (s : Slice) (run run' : Judge) : Prop :=
  ∀ ⦃b' rest⦄, b.Leads names s b' rest → (run b' rest).Upholds lenient (run' b' rest)

theorem Judge.Upholds.onward {lenient : Bool} {run run' : Judge} (h : Judge.Upholds names lenient b s run run')
    (leads : b.Leads names s b' rest) : Judge.Upholds names lenient b' rest run run' :=
  fun _ _ further => h (leads.trans further)

theorem Judge.Upholds.here {lenient : Bool} {run run' : Judge} (h : Judge.Upholds names lenient b s run run')
    (real : b.Real) : (run b s).Upholds lenient (run' b s) :=
  h (.refl real s)

end Leads

/-! ### Operators -/

/-- Items that do the same with related parsers, except that a cutpoint may be left out. -/
structure Item.Like (lenient : Bool) (R : ParserId → ParserId → Prop) (item item' : Item) : Prop where
  parser : R item.parser item'.parser
  bind : item'.bind = item.bind
  cut : Softer lenient item.cut item'.cut

/-- Operators that do the same with related parsers, except that cutpoints may be left out. -/
inductive Operator.Like (lenient : Bool) (R : ParserId → ParserId → Prop) : Operator → Operator → Prop
  | pending {name name'} : Like lenient R (.pending name) (.pending name')
  | terminal {t t'} : t'.regex = t.regex → Like lenient R (.terminal t) (.terminal t')
  | call {target target'} : R target target' → Like lenient R (.call target) (.call target')
  | cut {inner inner'} : R inner inner' → Like lenient R (.cut inner) (.cut inner')
  | seq {items items'} : List.Forall₂ (Item.Like lenient R) items items' →
      Like lenient R (.seq items) (.seq items')
  | choice {alternatives alternatives'} : List.Forall₂ R alternatives alternatives' →
      Like lenient R (.choice alternatives) (.choice alternatives')
  | list {element element' separator separator' style cut cut'} : R element element' →
      R separator separator' → Softer lenient cut cut' →
      Like lenient R (.list element separator style cut) (.list element' separator' style cut')
  | quant {term term' min max} : R term term' → Like lenient R (.quant term min max) (.quant term' min max)
  | backref {name default default'} : Option.Rel R default default' →
      Like lenient R (.backref name default) (.backref name default')

/-- The names that an operator binds. -/
def Operator.binds : Operator → List String
  | .seq items => items.filterMap Item.bind
  | _ => []

namespace Judge

section Operators

variable {names : List String} {lenient : Bool} {R : ParserId → ParserId → Prop}
  {self self' : ParserId → Judge} {b : Texts} {s : Slice}

theorem sequenceFrom_upholds (honest : ∀ id, (self id).Honest) {items items' : List Item}
    (likes : List.Forall₂ (Item.Like lenient R) items items')
    (known : ∀ name ∈ items.filterMap Item.bind, name ∈ names) (real : b.Real)
    (parts : ∀ {id id'}, R id id' → Upholds names lenient b s (self id) (self' id'))
    {crossed crossed' : Bool} (softer : Softer lenient crossed crossed') :
    (sequenceFrom (items.map fun item => ⟨item.bind, item.cut, self item.parser⟩) crossed b s).Upholds lenient
      (sequenceFrom (items'.map fun item => ⟨item.bind, item.cut, self' item.parser⟩) crossed' b s) := by
  induction likes generalizing b s crossed crossed' with
  | nil => exact .refl _
  | @cons item item' items items' like likes ih =>
    simp only [List.map_cons, sequenceFrom]
    refine ((parts like.parser).here real).andThen (fun first found => ?_) softer.ite
    have bound : ∀ name, item.bind = some name → name ∈ names :=
      fun name here => known name (List.mem_filterMap.mpr ⟨item, List.mem_cons_self, here⟩)
    have others : ∀ name ∈ items.filterMap Item.bind, name ∈ names := by
      intro name member
      obtain ⟨item, inside, here⟩ := List.mem_filterMap.mp member
      exact known name (List.mem_filterMap.mpr ⟨item, .tail _ inside, here⟩)
    have leads := Texts.Leads.after (honest _) real found bound item.cut
    have same : Step.after ⟨item'.bind, item'.cut, self' item'.parser⟩ b first.1
        = Step.after ⟨item.bind, item.cut, self item.parser⟩ b first.1 := by
      simp only [Step.after, like.bind]
    rw [same]
    refine (ih others leads.real (fun related => (parts related).onward leads) (softer.or like.cut)).andThen
      (fun others _ => .refl _) (.refl _)

theorem choiceFrom_upholds {alternatives alternatives' : List ParserId}
    (related : List.Forall₂ R alternatives alternatives') (real : b.Real)
    (parts : ∀ {id id'}, R id id' → Upholds names lenient b s (self id) (self' id')) (tag : String) (index : Nat) :
    (choiceFrom tag b s (alternatives.map self) index).Upholds lenient
      (choiceFrom tag b s (alternatives'.map self') index) := by
  induction related generalizing index with
  | nil => exact .refl _
  | cons first _ ih => exact ((parts first).here real).andThen (fun found _ => .refl _) (ih _)

theorem repeatFrom_upholds {run run' : Judge} (honest : run.Honest) (real : b.Real)
    (upholds : Upholds names lenient b s run run') (min max fuel : Nat) (trees : Array Tree) :
    (repeatFrom run b min max fuel trees s).Upholds lenient (repeatFrom run' b min max fuel trees s) := by
  induction fuel generalizing s trees with
  | zero => exact .refl _
  | succ fuel ih =>
    rw [repeatFrom, repeatFrom]
    split
    · exact .refl _
    · refine (upholds.here real).andThen (fun found here => ?_) (.refl _)
      split
      · exact .refl _
      · exact ih (upholds.onward (.onward real (honest real here).1)) _

section Lists

variable {element element' separator separator' : Judge} (honest : element.Honest) (honest' : separator.Honest)
  (real : b.Real)

include honest honest' real

/-- What a pair leaves follows what it takes. -/
theorem pair_follows {style : ListStyle} {cut mayElide : Bool} {found : Recognizer.Pair}
    (h : pair ⟨element, separator, style, cut⟩ b mayElide s = .matched (some found)) : found.rest.Follows s := by
  rcases Verdict.andThen_eq_matched h with ⟨mark, first, h⟩ | ⟨-, h⟩
  · have follows := (honest' real first).1
    rcases Verdict.andThen_eq_matched h with ⟨tree, second, h⟩ | ⟨-, h⟩
    · obtain rfl := Option.some.inj (Verdict.matched.inj h)
      exact (honest real second).1.trans follows
    · split at h
      · obtain rfl := Option.some.inj (Verdict.matched.inj h)
        exact follows
      · split at h <;> cases h
  · cases h

/-- What the first slots of a list leave follows what they take. -/
theorem listHead_follows {style : ListStyle} {cut : Bool} {slots : List Tree} {rest : Slice}
    (h : listHead ⟨element, separator, style, cut⟩ b s = .matched (slots, rest)) : rest.Follows s := by
  rcases Verdict.andThen_eq_matched h with ⟨tree, first, h⟩ | ⟨-, h⟩
  · obtain ⟨-, rfl⟩ := Prod.mk.inj (Verdict.matched.inj h)
    exact (honest real first).1
  · split at h
    · rcases Verdict.andThen_eq_matched h with ⟨found, first, h⟩ | ⟨-, h⟩
      · match found, h with
        | some ⟨mark, some tree, _⟩, h =>
          obtain ⟨-, rfl⟩ := Prod.mk.inj (Verdict.matched.inj h)
          exact pair_follows honest honest' real first
      · cases h
    · cases h

omit honest in
theorem pair_upholds (elements : Upholds names lenient b s element element')
    (separators : Upholds names lenient b s separator separator') (style : ListStyle) {cut cut' : Bool}
    (softer : Softer lenient cut cut') (mayElide : Bool) :
    (pair ⟨element, separator, style, cut⟩ b mayElide s).Upholds lenient
      (pair ⟨element', separator', style, cut'⟩ b mayElide s) := by
  refine (separators.here real).andThen (fun mark found => ?_) (.refl _)
  have leads : b.Leads names s b mark.2 := .onward real (honest' real found).1
  refine ((elements.onward leads).here real).andThen (fun tree _ => .refl _) ?_
  split
  · exact .refl _
  · exact softer.ite

omit honest in
theorem listHead_upholds (elements : Upholds names lenient b s element element')
    (separators : Upholds names lenient b s separator separator') (style : ListStyle) {cut cut' : Bool}
    (softer : Softer lenient cut cut') :
    (listHead ⟨element, separator, style, cut⟩ b s).Upholds lenient
      (listHead ⟨element', separator', style, cut'⟩ b s) := by
  refine (elements.here real).andThen (fun found _ => .refl _) ?_
  split
  · exact (pair_upholds honest' real elements separators style softer false).andThen
      (fun found _ => .refl _) (.refl _)
  · exact .refl _

theorem listTail_upholds (elements : Upholds names lenient b s element element')
    (separators : Upholds names lenient b s separator separator') (style : ListStyle) {cut cut' : Bool}
    (softer : Softer lenient cut cut') (fuel : Nat) (slots : Array Tree) :
    (listTail ⟨element, separator, style, cut⟩ b fuel slots s).Upholds lenient
      (listTail ⟨element', separator', style, cut'⟩ b fuel slots s) := by
  induction fuel generalizing s slots with
  | zero => exact .refl _
  | succ fuel ih =>
    refine (pair_upholds honest' real elements separators style softer style.trailing).andThen
      (fun found here => ?_) (.refl _)
    cases found with
    | none => exact .refl _
    | some found =>
      dsimp only
      split
      · exact .refl _
      · have leads : b.Leads names s b found.rest := .onward real (pair_follows honest honest' real here)
        exact ih (elements.onward leads) (separators.onward leads) _

theorem list_upholds (elements : Upholds names lenient b s element element')
    (separators : Upholds names lenient b s separator separator') (style : ListStyle) {cut cut' : Bool}
    (softer : Softer lenient cut cut') (label : Option String) :
    (list label ⟨element, separator, style, cut⟩ b s).Upholds lenient
      (list label ⟨element', separator', style, cut'⟩ b s) := by
  refine (listHead_upholds honest' real elements separators style softer).andThen (fun head here => ?_) (.refl _)
  have leads : b.Leads names s b head.2 := .onward real (listHead_follows honest honest' real here)
  exact (listTail_upholds honest honest' real (elements.onward leads) (separators.onward leads) style softer _
    _).andThen (fun found _ => .refl _) (.refl _)

end Lists

theorem backref_upholds {default default' : Option ParserId} (related : Option.Rel R default default')
    (real : b.Real) (parts : ∀ {id id'}, R id id' → Upholds names lenient b s (self id) (self' id'))
    (name : String) :
    (backref name (default.map self) b s).Upholds lenient (backref name (default'.map self') b s) := by
  simp only [backref]
  cases b name with
  | some chars => exact .refl _
  | none =>
    cases related with
    | none => exact .refl _
    | some inner => exact ((parts inner).here real).andThen (fun found _ => .refl _) (.refl _)

/-- Operators uphold each other if their parts do wherever the first one may run them. -/
theorem operator_upholds (honest : ∀ id, (self id).Honest) {operator operator' : Operator}
    (like : operator.Like lenient R operator') (known : ∀ name ∈ operator.binds, name ∈ names) (real : b.Real)
    (parts : ∀ {id id'}, R id id' → Upholds names lenient b s (self id) (self' id')) (label : Option String) :
    (operator.judge self label b s).Upholds lenient (operator'.judge self' label b s) := by
  cases like with
  | pending => exact .refl _
  | terminal same =>
    simp only [Operator.judge, same]
    exact .refl _
  | call target => exact (parts target).here real
  | cut inner => exact (parts inner).here real
  | seq items =>
    have softer : Softer lenient false false := .inl rfl
    exact (sequenceFrom_upholds honest items known real parts softer).andThen (fun found _ => .refl _) (.refl _)
  | choice alternatives => exact choiceFrom_upholds alternatives real parts _ 0
  | list element separator softer =>
    exact list_upholds (honest _) (honest _) real (parts element) (parts separator) _ softer label
  | quant term =>
    refine (repeatFrom_upholds (honest _) real (parts term) _ _ _ _).andThen (fun found _ => .refl _) (.refl _)
  | backref default => exact backref_upholds default real parts _

end Operators
end Judge
end GrammarKit
