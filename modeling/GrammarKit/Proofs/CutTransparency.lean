/-
Module: GrammarKit.Proofs.CutTransparency
Purpose: What automatic cutpoints leave alone.  They are not written, the checks on terms look through them, and so does
  the elimination of stacks: whether cutpoints are inserted before or after it comes to the same rules or to the same
  error.
Main exports: Term.spell_transform, Except.Paired, Grammar.Recut, Grammar.termViolations_withCutpoints,
  Grammar.traverse_withCutpoints, Grammar.eliminateLayers_recut
-/
import Mathlib.Tactic.Common
import GrammarKit.Proofs.Coverage
import GrammarKit.Proofs.CutInsertion

namespace GrammarKit

namespace Term

variable (unique : List String)

/-! ### One place -/

/-- A literal gets a cutpoint just if it is unique. -/
theorem literal_transform (text : String) :
    (text ∈ unique ∧ (literal text).transform (cutLiteral unique) = cut (literal text)) ∨
      (text ∉ unique ∧ (literal text).transform (cutLiteral unique) = literal text) := by
  by_cases member : text ∈ unique
  · exact .inl ⟨member, if_pos (List.contains_iff_mem.mpr member)⟩
  · exact .inr ⟨member, if_neg fun contains => member (List.contains_iff_mem.mp contains)⟩

/-- A cutpoint stays one. -/
theorem cut_transform (t : Term) : ∃ inner, (cut t).transform (cutLiteral unique) = cut inner := by
  rw [transform]
  cases t.transform (cutLiteral unique) with
  | cut inner => exact ⟨inner, rfl⟩
  | _ => exact ⟨_, rfl⟩

/-! ### Spelling -/

theorem spell_cutLiteral (t : Term) : (cutLiteral unique t).spell = t.spell := by
  unfold cutLiteral
  split
  · split <;> rfl
  · rfl
  · rfl

theorem strength_cutLiteral (t : Term) : (cutLiteral unique t).strength = t.strength := by
  unfold cutLiteral
  split
  · split <;> rfl
  · rfl
  · rfl

theorem strength_transform (t : Term) : (t.transform (cutLiteral unique)).strength = t.strength := by
  cases t with
  | seq ts => cases ts <;> rfl
  | cut t => exact (strength_cutLiteral unique _).trans (strength_transform t)
  | literal _ => exact strength_cutLiteral unique _
  | _ => rfl

theorem bracket_transform (required : Nat) (t : Term) (text : String) :
    bracket required (t.transform (cutLiteral unique)) text = bracket required t text := by
  rw [bracket, bracket, strength_transform]

theorem isCapture_transform (t : Term) : (t.transform (cutLiteral unique)).isCapture = t.isCapture := by
  cases t with
  | literal text =>
    rcases literal_transform unique text with ⟨-, same⟩ | ⟨-, same⟩ <;> simp only [same, isCapture]
  | cut t =>
    obtain ⟨inner, same⟩ := cut_transform unique t
    rw [same]
    rfl
  | _ => rfl

/-- Whether a term is a sequence. -/
def isSeq : Term → Bool
  | seq _ => true
  | _ => false

theorem isSeq_transform (t : Term) : (t.transform (cutLiteral unique)).isSeq = t.isSeq := by
  cases t with
  | literal text =>
    rcases literal_transform unique text with ⟨-, same⟩ | ⟨-, same⟩ <;> simp only [same, isSeq]
  | cut t =>
    obtain ⟨inner, same⟩ := cut_transform unique t
    rw [same]
    rfl
  | _ => rfl

theorem spell_withRules (t : Term) (entries : List (String × Term)) : (withRules t ⟨entries⟩).spell
    = (if t.isSeq then t.spell else bracket Strength.suffix t t.spell) ++ " \x7b " ++ spellEntries "; " entries
      ++ "\x7d" := by
  cases t <;> rfl

mutual
/-- Cutpoints are not written. -/
theorem spell_transform : ∀ t : Term, (t.transform (cutLiteral unique)).spell = t.spell
  | rule _ => rfl
  | literal _ => spell_cutLiteral unique _
  | regex _ => rfl
  | seq [] => rfl
  | seq (t :: ts) => congrArg (String.intercalate " ") (spellAll_transform Strength.suffix (t :: ts))
  | choice ts => congrArg (String.intercalate " | ") (spellAll_transform Strength.seq ts)
  | stack ts => congrArg (String.intercalate " > ") (spellAll_transform Strength.choice ts)
  | list element separator style => by
    rw [transform, spell_cutLiteral, spell, spell, spell_transform element, spell_transform separator,
      bracket_transform, bracket_transform, isCapture_transform]
  | quant t min max => by
    rw [transform, spell_cutLiteral, spell, spell, spell_transform t, bracket_transform]
  | capture name t => by
    rw [transform, spell_cutLiteral, spell, spell, spell_transform t, bracket_transform]
  | backref _ none => rfl
  | backref name (some t) => by
    rw [transform, spell_cutLiteral, spell, spell, transformDefault, spellDefault, spellDefault, spell_transform t,
      bracket_transform]
  | cut t => (spell_cutLiteral unique _).trans (spell_transform t)
  | withRules t ⟨entries⟩ => by
    rw [transform, spell_cutLiteral, transformTable, spell_withRules, spell_withRules, spell_transform t,
      bracket_transform, isSeq_transform, spellEntries_transform "; " entries]

theorem spellAll_transform (required : Nat) : ∀ ts : List Term,
    spellAll required (transformAll (cutLiteral unique) ts) = spellAll required ts
  | [] => rfl
  | t :: ts => by
    rw [transformAll, spellAll, spellAll, spell_transform t, bracket_transform, spellAll_transform required ts]

theorem spellEntries_transform (ending : String) : ∀ entries : List (String × Term),
    spellEntries ending (transformEntries (cutLiteral unique) entries) = spellEntries ending entries
  | [] => rfl
  | (name, t) :: entries => by
    rw [transformEntries, spellEntries, spellEntries, spell_transform t, spellEntries_transform ending entries]
end

/-! ### Violations -/

theorem captureName?_transform (t : Term) :
    (t.transform (cutLiteral unique)).captureName? = t.captureName? := by
  cases t with
  | literal text =>
    rcases literal_transform unique text with ⟨-, same⟩ | ⟨-, same⟩ <;> simp only [same, captureName?]
  | cut t =>
    obtain ⟨inner, same⟩ := cut_transform unique t
    rw [same]
    rfl
  | _ => rfl

theorem violations_cutLiteral (p : Place) (t : Term) : violations p (cutLiteral unique t) = violations p t := by
  unfold cutLiteral
  split
  · split <;> rfl
  · rfl
  · rfl

/-- Rules that are no stacks are checked as terms. -/
theorem entryViolations_cons {known : List String} {name : String} {t : Term} (noStack : t.isStack = false)
    (entries : List (String × Term)) : entryViolations known ((name, t) :: entries)
      = (if name = paddingRule then [] else violations ⟨name, known, false⟩ t) ++ entryViolations known entries := by
  cases t with
  | stack _ => cases noStack
  | _ => rfl

theorem names_transformTable (f : Term → Term) : ∀ rules : Grammar, (transformTable f rules).names = rules.names
  | ⟨entries⟩ => names_transformEntries entries

mutual
/-- The checks look through cutpoints. -/
theorem violations_transform : ∀ (p : Place) (t : Term),
    violations p (t.transform (cutLiteral unique)) = violations p t
  | _, rule _ => rfl
  | p, literal _ => violations_cutLiteral unique p _
  | _, regex _ => rfl
  | p, seq ts => itemViolations_transform p [] ts
  | p, choice ts => violationsAll_transform p ts
  | _, stack _ => rfl
  | p, list element separator _ =>
      congrArg₂ (· ++ ·) (violations_transform p element) (violations_transform p separator)
  | p, quant t _ _ => congrArg (_ ++ ·) (violations_transform p t)
  | p, capture _ t => congrArg (_ ++ ·) (violations_transform p t)
  | _, backref _ none => rfl
  | p, backref _ (some t) => violations_transform p t
  | p, cut t => (violations_cutLiteral unique p _).trans (violations_transform p t)
  | p, withRules t ⟨entries⟩ => by
    rw [transform, violations_cutLiteral, violations, violations, names_transformTable, violations_transform,
      transformTable, tableViolations, tableViolations, entryViolations_transform _ entries]

theorem itemViolations_transform : ∀ (p : Place) (seen : List String) (ts : List Term),
    itemViolations p seen (transformAll (cutLiteral unique) ts) = itemViolations p seen ts
  | _, _, [] => rfl
  | p, seen, t :: ts => by
    rw [transformAll, itemViolations, itemViolations, repeatViolations, repeatViolations, captureName?_transform,
      violations_transform p t, itemViolations_transform p _ ts]

theorem violationsAll_transform : ∀ (p : Place) (ts : List Term),
    violationsAll p (transformAll (cutLiteral unique) ts) = violationsAll p ts
  | _, [] => rfl
  | p, t :: ts => congrArg₂ (· ++ ·) (violations_transform p t) (violationsAll_transform p ts)

theorem entryViolations_transform : ∀ (known : List String) (entries : List (String × Term)),
    entryViolations known (transformEntries (cutLiteral unique) entries) = entryViolations known entries
  | _, [] => rfl
  | known, (name, t) :: entries => by
    cases t with
    | stack layers =>
      exact congrArg₂ (· ++ ·) (violationsAll_transform ⟨name, known, true⟩ layers)
        (entryViolations_transform known entries)
    | _ =>
      have noStack := isStack_transform (keepsFeatures_cutLiteral unique)
      rw [transformEntries, entryViolations_cons ((noStack _).trans rfl), entryViolations_cons rfl,
        violations_transform ⟨name, known, false⟩, entryViolations_transform known entries]
end

end Term

/-! ### Stacks -/

/-- Two computations that end alike: with results that go together, or in the same error. -/
inductive Except.Paired {ε α β : Type} (r : α → β → Prop) : Except ε α → Except ε β → Prop
  | ok {a b} (here : r a b) : Paired r (.ok a) (.ok b)
  | error (e : ε) : Paired r (.error e) (.error e)

namespace Except.Paired

variable {ε α β α' β' : Type} {r : α → β → Prop} {r' : α' → β' → Prop} {x : Except ε α} {y : Except ε β}

theorem refl {r : α → α → Prop} (same : ∀ a, r a a) (x : Except ε α) : Paired r x x := by
  cases x with
  | ok a => exact .ok (same a)
  | error e => exact .error e

theorem bind (h : Paired r x y) {f : α → Except ε α'} {g : β → Except ε β'}
    (goesOn : ∀ {a b}, r a b → Paired r' (f a) (g b)) : Paired r' (x >>= f) (y >>= g) := by
  cases h with
  | ok here => exact goesOn here
  | error e => exact .error e

theorem map (h : Paired r x y) {f : α → α'} {g : β → β'} (both : ∀ {a b}, r a b → r' (f a) (g b)) :
    Paired r' (x.map f) (y.map g) := by
  cases h with
  | ok here => exact .ok (both here)
  | error e => exact .error e

theorem mono (h : Paired r x y) {r' : α → β → Prop} (weaker : ∀ {a b}, r a b → r' a b) : Paired r' x y := by
  cases h with
  | ok here => exact .ok (weaker here)
  | error e => exact .error e

theorem attach (h : Paired r x y) : Paired (fun a b => r a b ∧ x = .ok a ∧ y = .ok b) x y := by
  cases h with
  | ok here => exact .ok ⟨here, rfl, rfl⟩
  | error e => exact .error e

theorem mapError {ε' : Type} (h : Paired r x y) (f : ε → ε') : Paired r (x.mapError f) (y.mapError f) := by
  cases h with
  | ok here => exact .ok here
  | error e => exact .error (f e)

/-- Where the results are those of the first computation changed, so is the computation. -/
theorem map_eq {f : α → β} (h : Paired (fun a b => b = f a) x y) : y = x.map f := by
  cases h with
  | ok here => exact congrArg _ here
  | error e => rfl

theorem of_map_eq {f : α → β} (same : y = x.map f) : Paired (fun a b => b = f a) x y := by
  subst same
  cases x with
  | ok a => exact .ok rfl
  | error e => exact .error e

end Except.Paired

namespace Term

open Grammar (eliminateLocal eliminateLayers expandRule layerRules addNew addExpanded)

section Commute

variable (unique : List String) {old new : String}

/-- A cutpoint may be put around a term, or left out around another one, before references are replaced or after. -/
theorem resolve_cutLiteral_cut (t : Term) :
    (cutLiteral unique (cut t)).resolve old new = ((cut t).resolve old new).map (cutLiteral unique) := by
  cases t with
  | rule _ | literal _ | regex _ | stack _ => rfl
  | seq ts | choice ts =>
    cases h : resolveAll old new ts <;> simp only [cutLiteral, resolve, h, Except.map]
  | quant t _ _ | capture _ t | cut t | withRules t _ =>
    cases h : t.resolve old new <;> simp only [cutLiteral, resolve, h, Except.map]
  | backref _ default =>
    cases h : resolveDefault old new default <;> simp only [cutLiteral, resolve, h, Except.map]
  | list element separator _ =>
    cases h : element.resolve old new <;> cases h' : separator.resolve old new <;>
      simp only [cutLiteral, resolve, h, h', bind, Except.bind, Except.map]

theorem resolve_cutLiteral (t : Term) :
    (cutLiteral unique t).resolve old new = (t.resolve old new).map (cutLiteral unique) := by
  cases t with
  | rule _ | regex _ | stack _ => rfl
  | literal text =>
    rw [resolve, Except.map, cutLiteral]
    split <;> rfl
  | cut t => exact resolve_cutLiteral_cut unique t
  | seq ts | choice ts =>
    cases h : resolveAll old new ts <;> simp only [cutLiteral, resolve, h, Except.map]
  | quant t _ _ | capture _ t | withRules t _ =>
    cases h : t.resolve old new <;> simp only [cutLiteral, resolve, h, Except.map]
  | backref _ default =>
    cases h : resolveDefault old new default <;> simp only [cutLiteral, resolve, h, Except.map]
  | list element separator _ =>
    cases h : element.resolve old new <;> cases h' : separator.resolve old new <;>
      simp only [cutLiteral, resolve, h, h', bind, Except.bind, Except.map]

mutual
/-- Cutpoints may be inserted before references are replaced or after. -/
theorem resolve_transform : ∀ t : Term, (t.transform (cutLiteral unique)).resolve old new
    = (t.resolve old new).map (transform (cutLiteral unique))
  | rule _ => rfl
  | literal _ => resolve_cutLiteral unique _
  | regex _ => rfl
  | seq ts => by
    rw [transform, resolve_cutLiteral, resolve, resolve, resolveAll_transform ts]
    cases resolveAll old new ts <;> rfl
  | choice ts => by
    rw [transform, resolve_cutLiteral, resolve, resolve, resolveAll_transform ts]
    cases resolveAll old new ts <;> rfl
  | stack _ => rfl
  | list element separator _ => by
    rw [transform, resolve_cutLiteral, resolve, resolve, resolve_transform element, resolve_transform separator]
    cases element.resolve old new <;> cases separator.resolve old new <;> rfl
  | quant t _ _ => by
    rw [transform, resolve_cutLiteral, resolve, resolve, resolve_transform t]
    cases t.resolve old new <;> rfl
  | capture _ t => by
    rw [transform, resolve_cutLiteral, resolve, resolve, resolve_transform t]
    cases t.resolve old new <;> rfl
  | backref _ none => rfl
  | backref _ (some t) => by
    rw [transform, resolve_cutLiteral, resolve, resolve, transformDefault, resolveDefault, resolveDefault,
      resolve_transform t]
    cases t.resolve old new <;> rfl
  | cut t => by
    rw [transform, resolve_cutLiteral, resolve, resolve, resolve_transform t]
    cases t.resolve old new <;> rfl
  | withRules t _ => by
    rw [transform, resolve_cutLiteral, resolve, resolve, resolve_transform t]
    cases t.resolve old new <;> rfl

theorem resolveAll_transform : ∀ ts : List Term, resolveAll old new (transformAll (cutLiteral unique) ts)
    = (resolveAll old new ts).map (transformAll (cutLiteral unique))
  | [] => rfl
  | t :: ts => by
    rw [transformAll, resolveAll, resolveAll, resolve_transform t, resolveAll_transform ts]
    cases t.resolve old new <;> cases resolveAll old new ts <;> rfl
end

end Commute

end Term

namespace Grammar

open Table (EntriesPaired)
open Term

section Paired

variable {r : String → Term → Term → Prop} {entries entries' : List (String × Term)}

/-- Adding rules that go together comes to the same clash, or to rules that go together. -/
theorem addNew_paired {g g' : Grammar} (h : EntriesPaired r g.entries g'.entries)
    (rules : EntriesPaired r entries entries') :
    Except.Paired (fun flat flat' => EntriesPaired r flat.entries flat'.entries) (addNew g entries)
      (addNew g' entries') := by
  induction rules generalizing g g' with
  | nil => exact .ok h
  | @cons a b _ _ first others ih =>
    obtain ⟨_, t⟩ := a
    obtain ⟨name, u⟩ := b
    obtain ⟨rfl, both⟩ := first
    have contains : g'.contains name = g.contains name := by
      have found := h.lookup name
      rw [Table.contains, Table.contains, Table.get?, Table.get?]
      revert found
      cases Table.lookup name g.entries <;> cases Table.lookup name g'.entries <;> rintro ⟨⟩ <;> rfl
    rw [addNew, addNew, contains]
    split
    · exact .error _
    · exact ih (h.insertEntry both)

theorem addExpanded_paired
    (expands : ∀ {name t u}, r name t u → Except.Paired (EntriesPaired r) (expandRule name t) (expandRule name u))
    {g g' : Grammar} (h : EntriesPaired r g.entries g'.entries) (rules : EntriesPaired r entries entries') :
    Except.Paired (fun flat flat' => EntriesPaired r flat.entries flat'.entries) (addExpanded g entries)
      (addExpanded g' entries') := by
  induction rules generalizing g g' with
  | nil => exact .ok h
  | @cons a b _ _ first _ ih =>
    obtain ⟨_, t⟩ := a
    obtain ⟨name, u⟩ := b
    obtain ⟨rfl, both⟩ := first
    exact (expands both).bind fun layers => (addNew_paired h layers).bind ih

/-- If rules that go together become rules that do, then so do tables of them without stacks. -/
theorem eliminateLayers_paired
    (expands : ∀ {name t u}, r name t u → Except.Paired (EntriesPaired r) (expandRule name t) (expandRule name u))
    (rules : EntriesPaired r entries entries') :
    Except.Paired (fun flat flat' => EntriesPaired r flat.entries flat'.entries) (eliminateLayers ⟨entries⟩)
      (eliminateLayers ⟨entries'⟩) :=
  have none : EntriesPaired r (Table.empty : Grammar).entries (Table.empty : Grammar).entries := .nil
  addExpanded_paired expands none rules

end Paired

section Recut

variable (unique : List String)

/-- In a table of local rules all terms get cutpoints. -/
theorem entriesPaired_transform {entries entries' : List (String × Term)} :
    EntriesPaired (fun _ t u => u = t.transform (cutLiteral unique)) entries entries' ↔
      entries' = transformEntries (cutLiteral unique) entries := by
  constructor
  · intro h
    induction h with
    | nil => rfl
    | @cons a b _ _ here _ ih =>
      obtain ⟨_, t⟩ := a
      obtain ⟨name, u⟩ := b
      obtain ⟨rfl, same⟩ := here
      rw [transformEntries, ih, ← same]
  · rintro rfl
    induction entries with
    | nil => exact .nil
    | cons entry entries ih => exact .cons ⟨rfl, rfl⟩ ih

theorem length_transformAll (f : Term → Term) : ∀ ts : List Term, (transformAll f ts).length = ts.length
  | [] => rfl
  | _ :: ts => congrArg (· + 1) (length_transformAll f ts)

theorem layerRules_transform (name : String) (count : Nat) : ∀ (layer : Nat) (ts : List Term),
    layerRules name count layer (transformAll (cutLiteral unique) ts)
      = (layerRules name count layer ts).map (transformEntries (cutLiteral unique))
  | _, [] => rfl
  | layer, t :: ts => by
    rw [transformAll, layerRules, layerRules, resolve_transform, layerRules_transform name count (layer + 1) ts]
    cases t.resolve placeholder (layerName name ((layer + 1) % count)) <;>
      cases layerRules name count (layer + 1) ts <;> rfl

/-- Cutpoints may be inserted before a rule is expanded or after. -/
theorem expandRule_transform (name : String) (t : Term) :
    expandRule name (t.transform (cutLiteral unique))
      = (expandRule name t).map (transformEntries (cutLiteral unique)) := by
  cases t with
  | stack layers =>
    refine Eq.trans ?_ (layerRules_transform unique name layers.length 0 layers)
    exact congrArg (layerRules name · 0 (transformAll (cutLiteral unique) layers)) (length_transformAll _ layers)
  | _ =>
    have noStack := isStack_transform (keepsFeatures_cutLiteral unique)
    rw [expandRule_of_noStack ((noStack _).trans rfl), expandRule_of_noStack rfl]
    rfl

/-- Cutpoints may be inserted before the stacks of a table are expanded or after. -/
theorem eliminateLayers_transform (rules : Grammar) :
    eliminateLayers (transformTable (cutLiteral unique) rules)
      = (eliminateLayers rules).map (transformTable (cutLiteral unique)) := by
  obtain ⟨entries⟩ := rules
  have expands : ∀ {name t u}, u = t.transform (cutLiteral unique) → Except.Paired
      (EntriesPaired fun _ t u => u = t.transform (cutLiteral unique)) (expandRule name t) (expandRule name u) := by
    rintro name t _ rfl
    exact (Except.Paired.of_map_eq (expandRule_transform unique name t)).mono (entriesPaired_transform unique).mpr
  have layered := eliminateLayers_paired expands
    ((entriesPaired_transform unique).mpr rfl : EntriesPaired _ entries (transformEntries (cutLiteral unique) entries))
  have same : ∀ {flat flat' : Grammar}, EntriesPaired (fun _ t u => u = t.transform (cutLiteral unique)) flat.entries
      flat'.entries → flat' = transformTable (cutLiteral unique) flat := by
    rintro ⟨_⟩ ⟨_⟩ both
    exact congrArg Table.mk ((entriesPaired_transform unique).mp both)
  exact (layered.mono same).map_eq

theorem traverse_cutLiteral_cut (t : Term) : (cutLiteral unique (cut t)).traverse eliminateLocal
    = ((cut t).traverse eliminateLocal).map (cutLiteral unique) := by
  cases t with
  | rule _ | literal _ | regex _ => rfl
  | seq ts | choice ts | stack ts =>
    cases h : traverseAll eliminateLocal ts <;>
      simp only [cutLiteral, Term.traverse, h, eliminateLocal, bind, Except.bind, Except.map]
  | quant t _ _ | capture _ t | cut t =>
    cases h : t.traverse eliminateLocal <;>
      simp only [cutLiteral, Term.traverse, h, eliminateLocal, bind, Except.bind, Except.map]
  | backref _ default =>
    cases h : traverseDefault eliminateLocal default <;>
      simp only [cutLiteral, Term.traverse, h, eliminateLocal, bind, Except.bind, Except.map]
  | list element separator _ =>
    cases h : element.traverse eliminateLocal <;> cases h' : separator.traverse eliminateLocal <;>
      simp only [cutLiteral, Term.traverse, h, h', eliminateLocal, bind, Except.bind, Except.map]
  | withRules t rules =>
    cases h : t.traverse eliminateLocal <;> cases h' : traverseTable eliminateLocal rules <;>
      simp only [cutLiteral, Term.traverse, h, h', eliminateLocal, bind, Except.bind, Except.map]
    · next rules => cases h : eliminateLayers rules <;> simp only
theorem traverse_cutLiteral (t : Term) : (cutLiteral unique t).traverse eliminateLocal
    = (t.traverse eliminateLocal).map (cutLiteral unique) := by
  cases t with
  | rule _ | regex _ => rfl
  | literal text =>
    by_cases taken : unique.contains text <;>
      simp only [cutLiteral, taken, if_true, if_false, Bool.false_eq_true, Term.traverse, eliminateLocal, Except.map,
        bind, Except.bind]
  | cut t => exact traverse_cutLiteral_cut unique t
  | seq ts | choice ts | stack ts =>
    cases h : traverseAll eliminateLocal ts <;>
      simp only [cutLiteral, Term.traverse, h, eliminateLocal, bind, Except.bind, Except.map]
  | quant t _ _ | capture _ t =>
    cases h : t.traverse eliminateLocal <;>
      simp only [cutLiteral, Term.traverse, h, eliminateLocal, bind, Except.bind, Except.map]
  | backref _ default =>
    cases h : traverseDefault eliminateLocal default <;>
      simp only [cutLiteral, Term.traverse, h, eliminateLocal, bind, Except.bind, Except.map]
  | list element separator _ =>
    cases h : element.traverse eliminateLocal <;> cases h' : separator.traverse eliminateLocal <;>
      simp only [cutLiteral, Term.traverse, h, h', eliminateLocal, bind, Except.bind, Except.map]
  | withRules t rules =>
    cases h : t.traverse eliminateLocal <;> cases h' : traverseTable eliminateLocal rules <;>
      simp only [cutLiteral, Term.traverse, h, h', eliminateLocal, bind, Except.bind, Except.map]
    · next rules => cases h : eliminateLayers rules <;> simp only

mutual
/-- Cutpoints may be inserted before the stacks among local rules are expanded or after. -/
theorem traverse_transform : ∀ t : Term, (t.transform (cutLiteral unique)).traverse eliminateLocal
    = (t.traverse eliminateLocal).map (Term.transform (cutLiteral unique))
  | rule _ => rfl
  | literal _ => traverse_cutLiteral unique _
  | regex _ => rfl
  | seq ts => by
    rw [Term.transform, traverse_cutLiteral, Term.traverse, Term.traverse, traverseAll_transform ts]
    cases traverseAll eliminateLocal ts <;> rfl
  | choice ts => by
    rw [Term.transform, traverse_cutLiteral, Term.traverse, Term.traverse, traverseAll_transform ts]
    cases traverseAll eliminateLocal ts <;> rfl
  | stack ts => by
    rw [Term.transform, traverse_cutLiteral, Term.traverse, Term.traverse, traverseAll_transform ts]
    cases traverseAll eliminateLocal ts <;> rfl
  | list element separator _ => by
    rw [Term.transform, traverse_cutLiteral, Term.traverse, Term.traverse, traverse_transform element,
      traverse_transform separator]
    cases element.traverse eliminateLocal <;> cases separator.traverse eliminateLocal <;> rfl
  | quant t _ _ => by
    rw [Term.transform, traverse_cutLiteral, Term.traverse, Term.traverse, traverse_transform t]
    cases t.traverse eliminateLocal <;> rfl
  | capture _ t => by
    rw [Term.transform, traverse_cutLiteral, Term.traverse, Term.traverse, traverse_transform t]
    cases t.traverse eliminateLocal <;> rfl
  | backref _ none => rfl
  | backref _ (some t) => by
    rw [Term.transform, traverse_cutLiteral, Term.traverse, Term.traverse, transformDefault, traverseDefault,
      traverseDefault, traverse_transform t]
    cases t.traverse eliminateLocal <;> rfl
  | cut t => by
    rw [Term.transform, traverse_cutLiteral, Term.traverse, Term.traverse, traverse_transform t]
    cases t.traverse eliminateLocal <;> rfl
  | withRules t ⟨entries⟩ => by
    rw [Term.transform, traverse_cutLiteral, Term.traverse, Term.traverse, traverse_transform t, transformTable,
      traverseTable, traverseTable, traverseEntries_transform entries]
    cases t.traverse eliminateLocal with
    | error _ => rfl
    | ok t =>
      cases traverseEntries eliminateLocal entries with
      | error _ => rfl
      | ok entries =>
        have layered := eliminateLayers_transform unique ⟨entries⟩
        simp only [Except.map, bind, Except.bind, eliminateLocal]
        rw [← transformTable, layered]
        cases eliminateLayers ⟨entries⟩ <;> rfl

theorem traverseAll_transform : ∀ ts : List Term, traverseAll eliminateLocal (transformAll (cutLiteral unique) ts)
    = (traverseAll eliminateLocal ts).map (transformAll (cutLiteral unique))
  | [] => rfl
  | t :: ts => by
    rw [transformAll, traverseAll, traverseAll, traverse_transform t, traverseAll_transform ts]
    cases t.traverse eliminateLocal <;> cases traverseAll eliminateLocal ts <;> rfl

theorem traverseEntries_transform : ∀ entries : List (String × Term),
    traverseEntries eliminateLocal (transformEntries (cutLiteral unique) entries)
      = (traverseEntries eliminateLocal entries).map (transformEntries (cutLiteral unique))
  | [] => rfl
  | (name, t) :: entries => by
    rw [transformEntries, traverseEntries, traverseEntries, traverse_transform t, traverseEntries_transform entries]
    cases t.traverse eliminateLocal <;> cases traverseEntries eliminateLocal entries <;> rfl
end

/-- A rule of a grammar, and the same rule with automatic cutpoints, where its term has a given property.  The padding
rule is left alone; if it is bound to a stack, then so are the layers, which have other names. -/
def Recut (P : Term → Prop) (name : String) (t u : Term) : Prop :=
  u = t ∨ name ≠ paddingRule ∧ P t ∧ u = t.transform (cutLiteral unique)

variable {unique} {P : Term → Prop} {entries entries' : List (String × Term)}

theorem recut_withCutpoints (g : Grammar) :
    EntriesPaired (Recut g.uniqueLiterals fun _ => True) g.entries g.withCutpoints.entries := by
  rw [entries_withCutpoints]
  generalize g.uniqueLiterals = unique
  induction g.entries with
  | nil => exact .nil
  | cons entry entries ih =>
    refine .cons ⟨rfl, ?_⟩ ih
    by_cases padding : entry.1 = paddingRule
    · exact .inl (if_pos padding)
    · exact .inr ⟨padding, trivial, if_neg padding⟩

theorem recut_of_forall (recut : EntriesPaired (Recut unique fun _ => True) entries entries')
    (holds : ∀ rule ∈ entries, rule.1 ≠ paddingRule → P rule.2) : EntriesPaired (Recut unique P) entries entries' := by
  induction recut with
  | nil => exact .nil
  | @cons a _ _ _ here _ ih =>
    obtain ⟨first, others⟩ := List.forall_mem_cons.mp holds
    refine .cons ⟨here.1, here.2.imp_right ?_⟩ (ih others)
    exact fun ⟨other, _, same⟩ => ⟨other, first other, same⟩

theorem entryViolations_append (known : List String) (entry : String × Term) (entries : List (String × Term)) :
    entryViolations known (entry :: entries) = entryViolations known [entry] ++ entryViolations known entries := by
  obtain ⟨name, t⟩ := entry
  cases t with
  | stack _ => rw [entryViolations, entryViolations, entryViolations, List.append_nil]
  | _ => rw [entryViolations_cons rfl, entryViolations_cons rfl, entryViolations, List.append_nil]

theorem entryViolations_recut (known : List String) (recut : EntriesPaired (Recut unique P) entries entries') :
    entryViolations known entries' = entryViolations known entries := by
  induction recut with
  | nil => rfl
  | @cons a b _ _ first _ ih =>
    obtain ⟨_, t⟩ := a
    obtain ⟨name, u⟩ := b
    obtain ⟨rfl, here⟩ := first
    have same : entryViolations known [(name, u)] = entryViolations known [(name, t)] := by
      have here : Recut unique P name t u := here
      rcases here with rfl | ⟨-, -, rfl⟩
      · rfl
      · exact entryViolations_transform _ known [(name, t)]
    rw [entryViolations_append, entryViolations_append known (name, t), same, ih]

/-- With automatic cutpoints, a grammar has the violations that it has without. -/
theorem termViolations_withCutpoints (g : Grammar) : g.withCutpoints.termViolations = g.termViolations := by
  have recut := recut_withCutpoints g
  rw [termViolations, termViolations, Table.names, Table.names, recut.names]
  obtain ⟨entries⟩ := g
  exact entryViolations_recut _ recut

theorem recut_traverse {name : String} {t u : Term} (recut : Recut unique (fun _ => True) name t u) :
    Except.Paired (Recut unique (fun _ => True) name) (t.traverse eliminateLocal) (u.traverse eliminateLocal) := by
  rcases recut with rfl | ⟨rule, -, rfl⟩
  · exact .refl (fun _ => .inl rfl) _
  · exact (Except.Paired.of_map_eq (traverse_transform unique t)).mono fun same => .inr ⟨rule, trivial, same⟩

theorem recut_traverseEntries (recut : EntriesPaired (Recut unique fun _ => True) entries entries') :
    Except.Paired (EntriesPaired (Recut unique fun _ => True)) (traverseEntries eliminateLocal entries)
      (traverseEntries eliminateLocal entries') := by
  induction recut with
  | nil => exact .ok .nil
  | @cons a b _ _ first _ ih =>
    obtain ⟨_, t⟩ := a
    obtain ⟨name, u⟩ := b
    obtain ⟨rfl, here⟩ := first
    exact (recut_traverse here).bind fun traversed => ih.bind fun others => .ok (.cons ⟨rfl, traversed⟩ others)

/-- With automatic cutpoints, the stacks among the local rules of a grammar are expanded as without, or end in the same
error. -/
theorem traverse_withCutpoints (g : Grammar) :
    Except.Paired (fun g' g'' => EntriesPaired (Recut g.uniqueLiterals fun _ => True) g'.entries g''.entries)
      (g.traverse eliminateLocal) (g.withCutpoints.traverse eliminateLocal) := by
  have recut := recut_withCutpoints g
  generalize g.uniqueLiterals = unique at recut ⊢
  generalize g.withCutpoints = g' at recut ⊢
  obtain ⟨entries⟩ := g
  obtain ⟨entries'⟩ := g'
  exact (recut_traverseEntries recut).bind fun others => .ok others

theorem recut_expandRule
    (inherited : ∀ {name t layers}, expandRule name t = .ok layers → P t → ∀ layer ∈ layers, P layer.2)
    {name : String} {t u : Term} (recut : Recut unique P name t u) :
    Except.Paired (EntriesPaired (Recut unique P)) (expandRule name t) (expandRule name u) := by
  rcases recut with rfl | ⟨rule, holds, rfl⟩
  · exact .refl (EntriesPaired.refl fun _ _ => .inl rfl) _
  · rw [expandRule_transform]
    cases expanded : expandRule name t with
    | error e => exact .error e
    | ok layers =>
      have rules : ∀ layer ∈ layers, layer.1 ≠ paddingRule ∧ P layer.2 := by
        intro layer member
        obtain ⟨number, named⟩ := (mem_expandRule expanded member).name
        exact ⟨named ▸ layerName_ne_paddingRule rule number, inherited expanded holds layer member⟩
      refine .ok ?_
      clear expanded
      induction layers with
      | nil => exact .nil
      | cons layer layers ih =>
        obtain ⟨here, others⟩ := List.forall_mem_cons.mp rules
        exact .cons ⟨rfl, .inr ⟨here.1, here.2, rfl⟩⟩ (ih others)

/-- With automatic cutpoints, the stacks that the rules of a table are bound to are expanded as without, or end in the
same error. -/
theorem eliminateLayers_recut
    (inherited : ∀ {name t layers}, expandRule name t = .ok layers → P t → ∀ layer ∈ layers, P layer.2)
    {g g' : Grammar} (recut : EntriesPaired (Recut unique P) g.entries g'.entries) :
    Except.Paired (fun flat flat' => EntriesPaired (Recut unique P) flat.entries flat'.entries) (eliminateLayers g)
      (eliminateLayers g') :=
  eliminateLayers_paired (recut_expandRule inherited) recut

end Recut

end Grammar
end GrammarKit
