/-
Module: GrammarKit.Proofs.Compilable
Purpose: When the compiler refuses a grammar without stacks, and with which error.  Whether the parser of a
  term can be made depends on the names that can be seen and on the padding only, not on the parsers made
  before; and no slot is left without a body, since each serves its rule.
Main exports: Term.tryBuild, Program.build_tryBuild, Grammar.tryCompile, Program.ofGrammar_tryCompile
-/
import GrammarKit.Proofs.RuleSlots

namespace GrammarKit

/-- Whether a computation succeeds, or else its error. -/
def Except.outcome {ε α : Type} (x : Except ε α) : Except ε Unit :=
  x.map fun _ => ()

section Outcome

variable {ε α β : Type}

@[simp] theorem Except.outcome_ok (a : α) : Except.outcome (.ok a : Except ε α) = .ok () := rfl

@[simp] theorem Except.outcome_error (e : ε) : Except.outcome (.error e : Except ε α) = .error e := rfl

theorem Except.outcome_eq_error {x : Except ε α} {e : ε} : Except.outcome x = .error e ↔ x = .error e := by
  cases x <;> simp

theorem Except.outcome_eq_ok {x : Except ε α} : Except.outcome x = .ok () ↔ ∃ a, x = .ok a := by
  cases x <;> simp

/-- The outcome of two steps, where that of the second does not depend on the value of the first. -/
theorem Except.outcome_bind {x : Except ε α} {f : α → Except ε β} {y : Except ε Unit}
    (second : ∀ a, x = .ok a → Except.outcome (f a) = y) :
    Except.outcome (x >>= f) = Except.outcome x >>= fun _ => y := by
  cases x with
  | error e => rfl
  | ok a => exact second a rfl

end Outcome

/-- The names of the rules of a table that can be referred to, the last one first. -/
def Grammar.visibleNames (rules : Grammar) : List String :=
  (rules.names.filter (· ≠ paddingRule)).reverse

namespace Term

mutual
/-- Whether the parser of a term can be made where the given names can be seen and the given padding is in
force, or else the error with which the compiler stops. -/
def tryBuild (names : List String) (padding : Option Padding) : Term → Except Error Unit
  | capture _ t => tryBuild names padding t
  | withRules t rules => do
      let padding ← Padding.ofGrammar rules padding
      tryTable (Grammar.visibleNames rules ++ names) padding rules
      tryBuild (Grammar.visibleNames rules ++ names) padding t
  | cut t => tryBuild names padding t
  | rule name => if name ∈ names then .ok () else .error (.unknownRule name)
  | literal text => Except.outcome (terminal (.literal text) padding)
  | regex pattern => Except.outcome (terminal (.regex pattern) padding)
  | seq ts => tryAll names padding ts
  | choice ts => tryAll names padding ts
  | list element separator _ => do
      tryBuild names padding element
      tryBuild names padding separator
  | quant t _ _ => tryBuild names padding t
  | backref _ default => tryDefault names default
  | stack _ => .error (.structural .misplacedStack)

/-- Whether the parsers of several terms can be made. -/
def tryAll (names : List String) (padding : Option Padding) : List Term → Except Error Unit
  | [] => .ok ()
  | t :: ts => do
      tryBuild names padding t
      tryAll names padding ts

/-- Whether the parser of a default can be made.  There is no padding in it. -/
def tryDefault (names : List String) : Option Term → Except Error Unit
  | none => .ok ()
  | some t => tryBuild names none t

/-- Whether the bodies of the rules of a table can be made. -/
def tryTable (names : List String) (padding : Option Padding) : Table Term → Except Error Unit
  | ⟨entries⟩ => tryEntries names padding entries

/-- Whether the bodies of the rules among some entries can be made. -/
def tryEntries (names : List String) (padding : Option Padding) : List (String × Term) → Except Error Unit
  | [] => .ok ()
  | (name, t) :: entries =>
      if name = paddingRule then tryEntries names padding entries
      else do
        tryBuild names padding t
        tryEntries names padding entries
end

end Term

/-- Whether a grammar without stacks can be compiled, or else the error with which the compiler stops. -/
def Grammar.tryCompile (g : Grammar) : Except Error Unit := do
  let padding ← Padding.ofGrammar g none
  Term.tryTable g.visibleNames padding g

namespace Program

/-- The names for which there are slots. -/
def Surroundings.visible (s : Surroundings) : List String :=
  s.names.map (·.1)

theorem visible_register {d later : Draft} {names names' : Names} {entries : List (String × Term)}
    (h : d.register names entries = (names', later)) :
    names'.map (·.1) = Grammar.visibleNames ⟨entries⟩ ++ names.map (·.1) := by
  obtain ⟨locals, r⟩ := register_spec h
  rw [r.names, List.map_append, r.order]
  rfl

open Term in
mutual
/-- The parser of a term is made, or refused, by the names and the padding around it alone. -/
theorem build_tryBuild : ∀ (s : Surroundings) (d : Draft) (label : Option String) (t : Term),
    Except.outcome (build s d label t) = tryBuild s.visible s.padding t
  | s, d, _, .capture name t => by
    rw [build, tryBuild]
    exact build_tryBuild s d (some name) t
  | s, d, label, .withRules t ⟨entries⟩ => by
    rw [build, tryBuild]
    cases Padding.ofGrammar ⟨entries⟩ s.padding with
    | error e => rfl
    | ok padding =>
      generalize registered : d.register s.names entries = made
      obtain ⟨names, d₁⟩ := made
      have visible : Surroundings.visible { s with names := names, padding := padding }
          = Grammar.visibleNames ⟨entries⟩ ++ s.visible := visible_register registered
      have table := buildEntries_tryEntries { s with names := names, padding := padding } d₁ entries
      rw [visible] at table
      refine (Except.outcome_bind (x := buildTable { s with names := names, padding := padding } d₁ ⟨entries⟩)
        fun d₂ _ => ?_).trans (congrArg (· >>= fun _ => _) table)
      have body := build_tryBuild { s with names := names, padding := padding } d₂ label t
      rw [visible] at body
      exact body
  | s, d, label, .cut t => by
    rw [build, tryBuild, ← build_tryBuild s d label t]
    refine (Except.outcome_bind (y := .ok ()) fun _ _ => rfl).trans ?_
    cases build s d label t <;> rfl
  | s, d, label, .rule name => by
    rw [build, tryBuild]
    have visible : name ∈ s.visible ↔ (Table.lookup name s.names).isSome := Table.lookup_isSome.symm
    simp only [visible]
    cases Table.lookup name s.names <;> rfl
  | s, d, label, .literal text => by
    rw [build, tryBuild]
    cases terminal (.literal text) s.padding <;> rfl
  | s, d, label, .regex pattern => by
    rw [build, tryBuild]
    cases terminal (.regex pattern) s.padding <;> rfl
  | s, d, label, .seq ts => by
    rw [build, tryBuild, ← buildItems_tryAll s d ts]
    cases buildItems s d ts <;> rfl
  | s, d, label, .choice ts => by
    rw [build, tryBuild, ← buildAll_tryAll s d ts]
    cases buildAll s d ts <;> rfl
  | s, d, label, .list element separator style => by
    rw [build, tryBuild, ← build_tryBuild s d none element]
    refine Except.outcome_bind fun ⟨elementId, d₁⟩ _ => ?_
    rw [← build_tryBuild s d₁ none separator]
    simp only
    cases build s d₁ none separator <;> rfl
  | s, d, label, .quant t min max => by
    rw [build, tryBuild, ← build_tryBuild s d none t]
    cases build s d none t <;> rfl
  | s, d, label, .backref name default => by
    have inner := buildDefault_tryDefault { s with padding := none } d rfl default
    rw [build, tryBuild]
    rw [show tryDefault s.visible default = _ from inner.symm]
    cases buildDefault { s with padding := none } d default <;> rfl
  | s, d, label, .stack ts => by
    rw [build, tryBuild]
    rfl

theorem buildItems_tryAll : ∀ (s : Surroundings) (d : Draft) (ts : List Term),
    Except.outcome (buildItems s d ts) = tryAll s.visible s.padding ts
  | _, _, [] => rfl
  | s, d, t :: ts => by
    rw [buildItems, tryAll, ← build_tryBuild s d none t]
    refine Except.outcome_bind fun ⟨id, d₁⟩ _ => ?_
    rw [← buildItems_tryAll s d₁ ts]
    simp only
    cases buildItems s d₁ ts <;> rfl

theorem buildAll_tryAll : ∀ (s : Surroundings) (d : Draft) (ts : List Term),
    Except.outcome (buildAll s d ts) = tryAll s.visible s.padding ts
  | _, _, [] => rfl
  | s, d, t :: ts => by
    rw [buildAll, tryAll, ← build_tryBuild s d none t]
    refine Except.outcome_bind fun ⟨id, d₁⟩ _ => ?_
    rw [← buildAll_tryAll s d₁ ts]
    simp only
    cases buildAll s d₁ ts <;> rfl

theorem buildDefault_tryDefault : ∀ (s : Surroundings) (d : Draft), s.padding = none → ∀ (default : Option Term),
    Except.outcome (buildDefault s d default) = tryDefault s.visible default
  | _, _, _, none => rfl
  | s, d, bare, some t => by
    rw [buildDefault, tryDefault, ← bare, ← build_tryBuild s d none t]
    cases build s d none t <;> rfl

theorem buildEntries_tryEntries : ∀ (s : Surroundings) (d : Draft) (entries : List (String × Term)),
    Except.outcome (buildEntries s d entries) = tryEntries s.visible s.padding entries
  | _, _, [] => rfl
  | s, d, (name, t) :: entries => by
    rw [buildEntries, tryEntries]
    split
    · exact buildEntries_tryEntries s d entries
    · rw [← build_tryBuild s d (some name) t]
      refine Except.outcome_bind fun ⟨body, d₁⟩ _ => ?_
      exact buildEntries_tryEntries s _ entries
end

/-! ### Whole grammars -/

/-- Slots that serve rules do not wait for their bodies. -/
theorem find?_isPending {d : Draft} {backrefs : List String} {slots : List (ParserId × String)}
    {rules : List PlacedRule} (serve : List.Forall₂ (Serves d backrefs) slots rules) :
    (slots.find? fun slot => d.isPending slot.1) = none := by
  induction serve with
  | nil => rfl
  | cons served _ ih =>
    obtain ⟨-, -, body, calls, -⟩ := served
    rw [List.find?_cons_of_neg (by simp [Draft.isPending, calls]), ih]

/-- A grammar without stacks compiles, or is refused, as its names, its padding and its terminals say. -/
theorem ofGrammar_tryCompile {g : Grammar} (distinct : DistinctNames g.features) :
    Except.outcome (ofGrammar g) = g.tryCompile := by
  obtain ⟨entries⟩ := g
  rw [ofGrammar, Grammar.tryCompile]
  cases padded : Padding.ofGrammar ⟨entries⟩ none with
  | error e => rfl
  | ok padding =>
    generalize registered : Draft.register ⟨#[], []⟩ [] entries = made
    obtain ⟨names, d⟩ := made
    have visible := visible_register registered
    rw [List.map_nil, List.append_nil] at visible
    have table := buildEntries_tryEntries ⟨Term.backrefNamesTable ⟨entries⟩, names, padding⟩ d entries
    rw [Surroundings.visible, visible] at table
    apply Eq.trans _ table
    simp only [bind, Except.bind, buildTable]
    cases filled : buildEntries ⟨Term.backrefNamesTable ⟨entries⟩, names, padding⟩ d entries with
    | error e => rfl
    | ok later =>
      have none := find?_isPending (slots_filled padded registered filled distinct).1
      simp only [none, Except.outcome_ok]

end Program
end GrammarKit
