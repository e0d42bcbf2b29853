/-
Module: GrammarKit.Proofs.CompilerErrors
Purpose: What a compilation can object to.  The compiler without validation reports a single violation, or one of
  the errors that validation is there to exclude; so a regular grammar whose stacks can be eliminated compiles with
  validation, or its violations are reported.
Main exports: Error.Reports, Grammar.tryCompile_fails, Grammar.compile_fails
-/
import GrammarKit.Proofs.Coverage
import GrammarKit.Proofs.Validity

namespace GrammarKit

/-- What the compiler can object to in a grammar without stacks. -/
def Error.OfCompiler (e : Error) : Prop :=
  (∃ violation, e = .grammar [violation]) ∨ e.Unreported

theorem terminal_fails (t : Term) (padding : Option Padding) :
    Except.FailsOnly Error.OfCompiler (terminal t padding) := by
  rw [terminal]
  split
  · exact .ok _
  · exact .error (.inl ⟨_, rfl⟩)

theorem Padding.ofGrammar_fails (g : Grammar) (outer : Option Padding) :
    Except.FailsOnly Error.OfCompiler (ofGrammar g outer) := by
  rw [ofGrammar]
  split
  · exact .ok _
  · split
    · exact .ok _
    · exact .error (.inl ⟨_, rfl⟩)

namespace Term

mutual
/-- A term that cannot be compiled has one violation, or a reference or a stack that cannot stay. -/
theorem tryBuild_fails (names : List String) (padding : Option Padding) :
    ∀ t : Term, Except.FailsOnly Error.OfCompiler (t.tryBuild names padding)
  | .capture _ t => tryBuild_fails names padding t
  | .withRules t ⟨entries⟩ => by
    rw [tryBuild]
    apply (Padding.ofGrammar_fails _ padding).bind
    intro padding _
    apply (tryEntries_fails _ padding entries).bind
    intro _ _
    exact tryBuild_fails _ padding t
  | .cut t => tryBuild_fails names padding t
  | .rule name => by
    rw [tryBuild]
    split
    · exact .ok _
    · exact .error (.inr trivial)
  | .literal text => (terminal_fails (.literal text) padding).map _
  | .regex pattern => (terminal_fails (.regex pattern) padding).map _
  | .seq ts => tryAll_fails names padding ts
  | .choice ts => tryAll_fails names padding ts
  | .list element separator _ => by
    rw [tryBuild]
    apply (tryBuild_fails names padding element).bind
    intro _ _
    exact tryBuild_fails names padding separator
  | .quant t _ _ => tryBuild_fails names padding t
  | .backref _ none => .ok _
  | .backref _ (some t) => tryBuild_fails names none t
  | .stack _ => .error (.inr trivial)

theorem tryAll_fails (names : List String) (padding : Option Padding) :
    ∀ ts : List Term, Except.FailsOnly Error.OfCompiler (tryAll names padding ts)
  | [] => .ok _
  | t :: ts => by
    rw [tryAll]
    apply (tryBuild_fails names padding t).bind
    intro _ _
    exact tryAll_fails names padding ts

theorem tryEntries_fails (names : List String) (padding : Option Padding) :
    ∀ entries : List (String × Term), Except.FailsOnly Error.OfCompiler (tryEntries names padding entries)
  | [] => .ok _
  | (name, t) :: entries => by
    rw [tryEntries]
    split
    · exact tryEntries_fails names padding entries
    · apply (tryBuild_fails names padding t).bind
      intro _ _
      exact tryEntries_fails names padding entries
end

end Term

theorem Grammar.tryCompile_fails (g : Grammar) : Except.FailsOnly Error.OfCompiler g.tryCompile := by
  obtain ⟨entries⟩ := g
  apply (Padding.ofGrammar_fails _ none).bind
  intro padding _
  exact Term.tryEntries_fails _ padding entries

/-- An error that reports violations, at least one. -/
def Error.Reports (e : Error) : Prop :=
  ∃ violations, violations ≠ [] ∧ e = .grammar violations

theorem refuseViolations_fails (wanted : Bool) (violations : List Violation) :
    Except.FailsOnly Error.Reports (refuseViolations wanted violations) := by
  rw [refuseViolations]
  split
  · next refused =>
    rw [Bool.and_eq_true, Bool.not_eq_true', List.isEmpty_eq_false_iff] at refused
    exact .error ⟨violations, refused.2, rfl⟩
  · exact .ok _

/-- A regular grammar whose stacks can be eliminated compiles with validation, or its violations are reported. -/
theorem Grammar.compile_fails {g flat : Grammar} (regular : g.Regular) (flattens : g.eliminateStacks = .ok flat) :
    Except.FailsOnly Error.Reports (g.compile {}) := by
  apply (refuseViolations_fails true g.termViolations).bind
  intro _ accepted
  have valid := refuseViolations_eq_ok accepted rfl
  show Except.FailsOnly Error.Reports (Generic.lift g.eliminateStacks >>= _)
  rw [flattens]
  have built : Except.FailsOnly Error.Reports (Program.ofGrammar flat) := by
    intro e failed
    have distinct : Program.DistinctNames flat.features := fun names member =>
      (features_eliminateStacks flattens _ member).1
    have tried : flat.tryCompile = .error e := by
      rw [← Program.ofGrammar_tryCompile distinct, failed]
      rfl
    rcases flat.tryCompile_fails e tried with ⟨violation, rfl⟩ | unreported
    · exact ⟨[violation], List.cons_ne_nil _ _, rfl⟩
    · exact absurd unreported (tryCompile_covered valid regular flattens e tried)
  apply built.bind
  intro program _
  apply (refuseViolations_fails true program.cycleViolations).bind
  intro _ _
  exact .ok _

theorem Grammar.compile_keeps {g flat : Grammar} (flattens : g.eliminateStacks = .ok flat) {p : Parsers}
    (compiled : g.compile {} = .ok p) : p.grammar = g ∧ p.flat = flat := by
  obtain ⟨source, eliminated, -⟩ := compile_without_cutpoints compiled
  exact ⟨source, Except.ok.inj (eliminated.symm.trans flattens)⟩

end GrammarKit
