/-
Module: GrammarKit.Proofs.CutInsertion
Purpose: What automatic cutpoints change.  Neither the literals of a grammar nor the grammar without its cutpoints
  depend on where cutpoints stand, so inserting them only inserts cutpoints, and which literals are unique stays as it
  was.  Once inserted, there is nothing left to insert: every unique literal stands in one cutpoint, and two cutpoints
  around one term have become one.
Main exports: Term.literals_transform, Term.eraseCuts_transform, Term.transform_transform,
  Grammar.withCutpoints_idempotent
-/
import Mathlib.Tactic.Common
import GrammarKit.Proofs.Features

namespace GrammarKit
namespace Term

variable (unique : List String)

/-! ### One place -/

theorem literals_cutLiteral (t : Term) : (cutLiteral unique t).literals = t.literals := by
  unfold cutLiteral
  split
  · split <;> rfl
  · rfl
  · rfl

theorem eraseCuts_cutLiteral (t : Term) : (cutLiteral unique t).eraseCuts = t.eraseCuts := by
  unfold cutLiteral
  split
  · split <;> rfl
  · rfl
  · rfl

/-- A literal is settled once it has been passed through: if it is unique, it stands in a cutpoint now. -/
theorem transform_cutLiteral_literal (text : String) :
    (cutLiteral unique (literal text)).transform (cutLiteral unique) = cutLiteral unique (literal text) := by
  by_cases taken : unique.contains text
  · have marked : cutLiteral unique (literal text) = cut (literal text) := if_pos taken
    rw [marked, transform, transform, marked]
    rfl
  · have kept : cutLiteral unique (literal text) = literal text := if_neg taken
    rw [kept, transform, kept]

/-- A cutpoint around what is settled is settled once it has been passed through: either it is gone, or it stays. -/
theorem transform_cutLiteral_cut {t : Term} (settled : t.transform (cutLiteral unique) = t) :
    (cutLiteral unique (cut t)).transform (cutLiteral unique) = cutLiteral unique (cut t) := by
  by_cases doubled : ∃ inner, t = cut inner
  · obtain ⟨inner, rfl⟩ := doubled
    exact settled
  · have kept : cutLiteral unique (cut t) = cut t := by
      cases t with
      | cut inner => exact absurd ⟨inner, rfl⟩ doubled
      | _ => rfl
    rw [kept, transform, settled, kept]

/-! ### All places -/

mutual
/-- Literals are counted through cutpoints, so inserting some leaves the literals of a term alone. -/
theorem literals_transform : ∀ t : Term, (t.transform (cutLiteral unique)).literals = t.literals
  | rule _ => literals_cutLiteral unique _
  | literal _ => literals_cutLiteral unique _
  | regex _ => literals_cutLiteral unique _
  | seq ts => (literals_cutLiteral unique _).trans (literalsAll_transform ts)
  | choice ts => (literals_cutLiteral unique _).trans (literalsAll_transform ts)
  | stack ts => (literals_cutLiteral unique _).trans (literalsAll_transform ts)
  | list element separator _ => by
    rw [transform, literals_cutLiteral, literals, literals, literals_transform element, literals_transform separator]
  | quant t _ _ => (literals_cutLiteral unique _).trans (literals_transform t)
  | capture _ t => (literals_cutLiteral unique _).trans (literals_transform t)
  | backref _ none => literals_cutLiteral unique _
  | backref _ (some t) => (literals_cutLiteral unique _).trans (literals_transform t)
  | cut t => (literals_cutLiteral unique _).trans (literals_transform t)
  | withRules t ⟨entries⟩ => by
    -- local rules hand out the literals that are unique among them, and these are counted through cutpoints too
    rw [transform, literals_cutLiteral, literals, literals, literals_transform t, transformTable,
      uniqueLiteralsTable, uniqueLiteralsTable, literalsEntries_transform entries]

theorem literalsAll_transform : ∀ ts : List Term,
    literalsAll (transformAll (cutLiteral unique) ts) = literalsAll ts
  | [] => rfl
  | t :: ts => by
    rw [transformAll, literalsAll, literalsAll, literals_transform t, literalsAll_transform ts]

theorem literalsEntries_transform : ∀ entries : List (String × Term),
    literalsEntries (transformEntries (cutLiteral unique) entries) = literalsEntries entries
  | [] => rfl
  | (name, t) :: entries => by
    rw [transformEntries, literalsEntries, literalsEntries, literals_transform t, literalsEntries_transform entries]
end

mutual
/-- Without its cutpoints a term is the same whether or not some have been inserted. -/
theorem eraseCuts_transform : ∀ t : Term, (t.transform (cutLiteral unique)).eraseCuts = t.eraseCuts
  | rule _ => eraseCuts_cutLiteral unique _
  | literal _ => eraseCuts_cutLiteral unique _
  | regex _ => eraseCuts_cutLiteral unique _
  | seq ts => (eraseCuts_cutLiteral unique _).trans (congrArg seq (eraseCutsAll_transform ts))
  | choice ts => (eraseCuts_cutLiteral unique _).trans (congrArg choice (eraseCutsAll_transform ts))
  | stack ts => (eraseCuts_cutLiteral unique _).trans (congrArg stack (eraseCutsAll_transform ts))
  | list element separator style =>
    (eraseCuts_cutLiteral unique _).trans
      (congrArg₂ (list · · style) (eraseCuts_transform element) (eraseCuts_transform separator))
  | quant t min max => (eraseCuts_cutLiteral unique _).trans (congrArg (quant · min max) (eraseCuts_transform t))
  | capture name t => (eraseCuts_cutLiteral unique _).trans (congrArg (capture name) (eraseCuts_transform t))
  | backref _ none => eraseCuts_cutLiteral unique _
  | backref name (some t) =>
    (eraseCuts_cutLiteral unique _).trans (congrArg (backref name <| some ·) (eraseCuts_transform t))
  | cut t => (eraseCuts_cutLiteral unique _).trans (eraseCuts_transform t)
  | withRules t ⟨entries⟩ =>
    (eraseCuts_cutLiteral unique _).trans
      (congrArg₂ (withRules · ⟨·⟩) (eraseCuts_transform t) (eraseCutsEntries_transform entries))

theorem eraseCutsAll_transform : ∀ ts : List Term,
    transformAll dropCut (transformAll (cutLiteral unique) ts) = transformAll dropCut ts
  | [] => rfl
  | t :: ts => congrArg₂ List.cons (eraseCuts_transform t) (eraseCutsAll_transform ts)

theorem eraseCutsEntries_transform : ∀ entries : List (String × Term),
    transformEntries dropCut (transformEntries (cutLiteral unique) entries) = transformEntries dropCut entries
  | [] => rfl
  | (name, t) :: entries =>
    congrArg₂ (fun t entries => (name, t) :: entries) (eraseCuts_transform t) (eraseCutsEntries_transform entries)
end

mutual
/-- Where cutpoints have been inserted, inserting them again changes nothing. -/
theorem transform_transform : ∀ t : Term,
    (t.transform (cutLiteral unique)).transform (cutLiteral unique) = t.transform (cutLiteral unique)
  | rule _ => rfl
  | literal text => transform_cutLiteral_literal unique text
  | regex _ => rfl
  | seq ts => congrArg seq (transformAll_transform ts)
  | choice ts => congrArg choice (transformAll_transform ts)
  | stack ts => congrArg stack (transformAll_transform ts)
  | list element separator style =>
    congrArg₂ (list · · style) (transform_transform element) (transform_transform separator)
  | quant t min max => congrArg (quant · min max) (transform_transform t)
  | capture name t => congrArg (capture name) (transform_transform t)
  | backref _ none => rfl
  | backref name (some t) => congrArg (backref name <| some ·) (transform_transform t)
  | cut t => transform_cutLiteral_cut unique (transform_transform t)
  | withRules t ⟨entries⟩ =>
    congrArg₂ (withRules · ⟨·⟩) (transform_transform t) (transformEntries_transform entries)

theorem transformAll_transform : ∀ ts : List Term,
    transformAll (cutLiteral unique) (transformAll (cutLiteral unique) ts) = transformAll (cutLiteral unique) ts
  | [] => rfl
  | t :: ts => congrArg₂ List.cons (transform_transform t) (transformAll_transform ts)

theorem transformEntries_transform : ∀ entries : List (String × Term),
    transformEntries (cutLiteral unique) (transformEntries (cutLiteral unique) entries)
      = transformEntries (cutLiteral unique) entries
  | [] => rfl
  | (name, t) :: entries =>
    congrArg₂ (fun t entries => (name, t) :: entries) (transform_transform t) (transformEntries_transform entries)
end

end Term

namespace Grammar

open Term

variable (g : Grammar)

/-- What automatic cutpoints do to the entries of a grammar: the padding rule stays as it is. -/
theorem entries_withCutpoints : g.withCutpoints.entries = g.entries.map fun (name, t) =>
    (name, if name = paddingRule then t else t.transform (cutLiteral g.uniqueLiterals)) :=
  rfl

/-- Automatic cutpoints do not change which literals are unique. -/
theorem uniqueLiterals_withCutpoints : g.withCutpoints.uniqueLiterals = g.uniqueLiterals := by
  have same : literalsEntries g.withCutpoints.entries = literalsEntries g.entries := by
    rw [entries_withCutpoints]
    generalize g.uniqueLiterals = unique
    induction g.entries with
    | nil => rfl
    | cons entry entries ih =>
      rw [List.map_cons, literalsEntries, literalsEntries, ih]
      by_cases padding : entry.1 = paddingRule
      · rw [if_pos padding, if_pos padding]
      · rw [if_neg padding, if_neg padding, if_neg padding, literals_transform]
  rw [uniqueLiterals, uniqueLiterals, uniqueLiteralsTable, uniqueLiteralsTable, same]

/-- Automatic cutpoints add nothing but cutpoints. -/
theorem eraseCuts_withCutpoints : g.withCutpoints.eraseCuts = g.eraseCuts := by
  have same (unique : List String) (entries : List (String × Term)) :
      transformEntries dropCut (entries.map fun (name, t) =>
        (name, if name = paddingRule then t else t.transform (cutLiteral unique)))
        = transformEntries dropCut entries := by
    induction entries with
    | nil => rfl
    | cons entry entries ih =>
      rw [List.map_cons, transformEntries, transformEntries, ih]
      by_cases padding : entry.1 = paddingRule
      · rw [if_pos padding]
      · rw [if_neg padding]
        exact congrArg (fun t => (entry.1, t) :: transformEntries dropCut entries) (eraseCuts_transform unique entry.2)
  obtain ⟨entries⟩ := g
  exact congrArg Table.mk (same _ entries)

/-- A grammar to which automatic cutpoints have been added is left alone by adding them again, and has the same unique
literals as before; without its cutpoints, local rules included, it is what the grammar itself is without them. -/
theorem withCutpoints_idempotent :
    g.withCutpoints.withCutpoints = g.withCutpoints ∧
      g.withCutpoints.uniqueLiterals = g.uniqueLiterals ∧
      g.withCutpoints.eraseCuts = g.eraseCuts := by
  refine ⟨?_, g.uniqueLiterals_withCutpoints, g.eraseCuts_withCutpoints⟩
  -- both passes look for the same literals, so the second one meets what the first one has settled
  apply congrArg Table.mk
  rw [uniqueLiterals_withCutpoints, entries_withCutpoints, List.map_map]
  apply List.map_congr_left
  rintro ⟨name, t⟩ -
  by_cases padding : name = paddingRule
  · simp only [Function.comp, if_pos padding]
  · simp only [Function.comp, if_neg padding, transform_transform]

/-- Of two cutpoints around a reference one is left, and the literal that occurs once gets one. -/
example :
    let g : Grammar := ⟨[("a", .seq [.literal "k", .cut (.cut (.rule "b"))]), ("b", .seq [.literal "x", .literal "x"])]⟩
    g.withCutpoints
      = ⟨[("a", .seq [.cut (.literal "k"), .cut (.rule "b")]), ("b", .seq [.literal "x", .literal "x"])]⟩ := by
  decide

end Grammar
end GrammarKit
