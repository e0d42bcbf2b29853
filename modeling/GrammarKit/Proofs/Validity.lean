/-
Module: GrammarKit.Proofs.Validity
Purpose: What a successful compilation says about a grammar.  A grammar without violations has patterns that
  can be read and bounds that do not exclude each other, wherever they stand, and so has the grammar without
  stacks that the program is made of.
Main exports: Feature.Valid, Grammar.valid_of_termViolations, Grammar.compile_steps, Grammar.valid_compile
-/
import GrammarKit.Parsers
import GrammarKit.Proofs.Features

namespace GrammarKit

/-- What validation asks of a feature. -/
def Feature.Valid : Feature → Prop
  | regex pattern => ∃ re, Regex.compile pattern = .ok re
  | quant min max => max ≠ 0 → min ≤ max
  | _ => True

namespace Term

theorem valid_of_patternViolations {p : Place} {pattern : String}
    (h : patternViolations p pattern = []) : Feature.Valid (.regex pattern) := by
  simp only [patternViolations] at h
  split at h
  · next re found => exact ⟨re, found⟩
  · cases h

theorem valid_of_boundViolations {p : Place} {min max : Nat} (h : boundViolations p min max = []) :
    Feature.Valid (.quant min max) := by
  intro bounded
  simp only [boundViolations] at h
  split at h
  · cases h
  · omega

mutual
theorem valid_of_violations : ∀ (p : Place) (t : Term), violations p t = [] →
    ∀ f ∈ t.features, f.Valid
  | _, rule _, _ => nofun
  | _, literal _, _ => nofun
  | _, regex _, h => by
    intro f member
    obtain rfl := List.mem_singleton.mp member
    exact valid_of_patternViolations h
  | p, seq ts, h => valid_of_itemViolations p [] ts h
  | p, choice ts, h => valid_of_violationsAll p ts h
  | _, stack _, h => by cases h
  | p, list element separator _, h => by
    obtain ⟨first, second⟩ := List.append_eq_nil_iff.mp h
    intro f member
    rcases List.mem_append.mp member with member | member
    · exact valid_of_violations p element first f member
    · exact valid_of_violations p separator second f member
  | p, quant t min max, h => by
    obtain ⟨bounds, inner⟩ := List.append_eq_nil_iff.mp h
    intro f member
    rcases List.mem_cons.mp member with rfl | member
    · exact valid_of_boundViolations bounds
    · exact valid_of_violations p t inner f member
  | p, capture _ t, h => by
    obtain ⟨-, inner⟩ := List.append_eq_nil_iff.mp h
    intro f member
    rcases List.mem_cons.mp member with rfl | member
    · trivial
    · exact valid_of_violations p t inner f member
  | p, backref _ default, h => by
    intro f member
    rcases List.mem_cons.mp member with rfl | member
    · trivial
    · exact valid_of_defaultViolations p default h f member
  | p, cut t, h => by
    rw [features]
    exact valid_of_violations p t h
  | p, withRules t rules, h => by
    obtain ⟨table, inner⟩ := List.append_eq_nil_iff.mp h
    intro f member
    rcases List.mem_append.mp member with member | member
    · exact valid_of_violations _ t inner f member
    · exact valid_of_tableViolations _ rules table f member

theorem valid_of_itemViolations : ∀ (p : Place) (seen : List String) (ts : List Term),
    itemViolations p seen ts = [] → ∀ f ∈ featuresAll ts, f.Valid
  | _, _, [], _ => nofun
  | p, seen, t :: ts, h => by
    obtain ⟨here, others⟩ := List.append_eq_nil_iff.mp h
    obtain ⟨-, inner⟩ := List.append_eq_nil_iff.mp here
    intro f member
    rcases List.mem_append.mp member with member | member
    · exact valid_of_violations p t inner f member
    · exact valid_of_itemViolations p _ ts others f member

theorem valid_of_violationsAll : ∀ (p : Place) (ts : List Term), violationsAll p ts = [] →
    ∀ f ∈ featuresAll ts, f.Valid
  | _, [], _ => nofun
  | p, t :: ts, h => by
    obtain ⟨inner, others⟩ := List.append_eq_nil_iff.mp h
    intro f member
    rcases List.mem_append.mp member with member | member
    · exact valid_of_violations p t inner f member
    · exact valid_of_violationsAll p ts others f member

theorem valid_of_defaultViolations : ∀ (p : Place) (t : Option Term), defaultViolations p t = [] →
    ∀ f ∈ featuresDefault t, f.Valid
  | _, none, _ => nofun
  | p, some t, h => valid_of_violations p t h

theorem valid_of_tableViolations : ∀ (known : List String) (rules : Table Term),
    tableViolations known rules = [] → ∀ f ∈ featuresTable rules, f.Valid
  | known, ⟨entries⟩, h => by
    intro f member
    rcases List.mem_cons.mp member with rfl | member
    · trivial
    · exact valid_of_entryViolations known entries h f member

theorem valid_of_entryViolations : ∀ (known : List String) (entries : List (String × Term)),
    entryViolations known entries = [] → ∀ f ∈ featuresEntries entries, f.Valid
  | _, [], _ => nofun
  | known, (name, t) :: entries, h => by
    intro f member
    rw [featuresEntries] at member
    cases t with
    | stack layers =>
      obtain ⟨inner, others⟩ := List.append_eq_nil_iff.mp h
      rcases List.mem_append.mp member with member | member
      · rw [if_neg (by simp [isStack])] at member
        exact valid_of_violationsAll _ layers inner f member
      · exact valid_of_entryViolations known entries others f member
    | _ =>
      obtain ⟨inner, others⟩ := List.append_eq_nil_iff.mp h
      rcases List.mem_append.mp member with member | member
      · split at member
        · cases member
        · next counted =>
          rw [if_neg fun padding => counted ⟨padding, rfl⟩] at inner
          exact valid_of_violations _ _ inner f member
      · exact valid_of_entryViolations known entries others f member
end

end Term

/-- A grammar without violations in its terms has valid features only. -/
theorem Grammar.valid_of_termViolations {g : Grammar} (h : g.termViolations = []) :
    ∀ f ∈ g.features, f.Valid :=
  Term.valid_of_tableViolations _ g h

/-- What is valid of all features of a grammar is so without stacks. -/
theorem Feature.FlatOf.valid {features : List Feature} (valid : ∀ f ∈ features, f.Valid) :
    ∀ {f : Feature}, f.FlatOf features → f.Valid
  | rules _, _ => trivial
  | regex _, member => valid _ member
  | quant _ _, member => valid _ member
  | capture _, _ => trivial
  | backref _, _ => trivial

/-! ### Compilation -/

theorem refuseViolations_eq_ok {wanted : Bool} {violations : List Violation} {u : Unit}
    (h : refuseViolations wanted violations = .ok u) : wanted = true → violations = [] := by
  rintro rfl
  simp only [refuseViolations] at h
  split at h
  · cases h
  · next none => simpa using none

namespace Grammar

variable {g : Grammar} {options : CompileOptions} {p : Parsers}

/-- The steps of a compilation. -/
theorem compile_steps (h : g.compile options = .ok p) :
    p.grammar = (if options.autoCutpoints then g.withCutpoints else g) ∧ p.grammar.eliminateStacks = .ok p.flat ∧
      Program.ofGrammar p.flat = .ok p.program ∧
      (options.validate = true → p.grammar.termViolations = [] ∧ p.program.cycleViolations = []) := by
  obtain ⟨_, terms, h⟩ := Except.bind_eq_ok h
  obtain ⟨flat, eliminated, h⟩ := Except.bind_eq_ok h
  obtain ⟨program, built, h⟩ := Except.bind_eq_ok h
  obtain ⟨_, cycles, h⟩ := Except.bind_eq_ok h
  obtain rfl := Except.ok.inj h
  exact ⟨rfl, Except.mapError_eq_ok eliminated, built, fun validated =>
    ⟨refuseViolations_eq_ok terms validated, refuseViolations_eq_ok cycles validated⟩⟩

/-- What is compiled has the features of the grammar, with or without the cutpoints that are put in. -/
theorem compile_ok (h : g.compile options = .ok p) :
    ∃ source : Grammar, source.features = g.features ∧ source.eliminateStacks = .ok p.flat ∧
      Program.ofGrammar p.flat = .ok p.program ∧
      (options.validate = true → source.termViolations = [] ∧ p.program.cycleViolations = []) := by
  obtain ⟨source, steps⟩ := compile_steps h
  refine ⟨p.grammar, ?_, steps⟩
  rw [source]
  split
  · exact g.features_withCutpoints
  · rfl

/-- Where no cutpoints are put in, a program is that of the grammar without its stacks. -/
theorem compile_without_cutpoints {validate : Bool} (h : g.compile ⟨validate, false⟩ = .ok p) :
    p.grammar = g ∧ g.eliminateStacks = .ok p.flat ∧ Program.ofGrammar p.flat = .ok p.program := by
  obtain ⟨source, eliminated, built, -⟩ := compile_steps h
  rw [if_neg Bool.false_ne_true] at source
  rw [source] at eliminated
  exact ⟨source, eliminated, built⟩

theorem features_compile (h : g.compile options = .ok p) : FlatFeatures g.features p.flat.features := by
  obtain ⟨source, same, eliminated, -⟩ := compile_ok h
  rw [← same]
  exact features_eliminateStacks eliminated

/-- What a validated grammar is compiled to has valid features only. -/
theorem valid_compile (h : g.compile options = .ok p) (validated : options.validate = true) :
    ∀ f ∈ p.flat.features, f.Valid := by
  obtain ⟨source, same, eliminated, -, checks⟩ := compile_ok h
  intro f member
  exact (features_eliminateStacks eliminated f member).valid
    (valid_of_termViolations (checks validated).1)

/-- No table of a compiled grammar has a name twice. -/
theorem nodup_compile (h : g.compile options = .ok p) {names : List String}
    (member : Feature.rules names ∈ p.flat.features) : names.Nodup :=
  (features_compile h _ member).1

end Grammar
end GrammarKit
