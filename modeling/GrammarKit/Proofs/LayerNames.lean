/-
Module: GrammarKit.Proofs.LayerNames
Purpose: Names of layers and the rules that they belong to.  Taking the number off the name of a layer
  gives the name of its stack, unless the name is not recognized as one of a layer and stays as it is.
Main exports: Plain, baseName_layerName, baseName_layerName_ne
-/
import Mathlib.Tactic.Common
import GrammarKit.Grammar.Layer

namespace GrammarKit

/-- A base name is the name itself, or what stands before an `@` and a number. -/
theorem baseName_cases (name : String) :
    baseName name = name ∨ ∃ digits, name.toList.reverse = digits ++ '@' :: (baseName name).toList.reverse ∧
      ∀ d ∈ digits, d.isDigit = true := by
  simp only [baseName, splitLayer]
  generalize taken : name.toList.reverse.takeWhile Unicode.digits.mem = digits
  have whole : name.toList.reverse = digits ++ name.toList.reverse.drop digits.length := by
    obtain ⟨rest, whole⟩ := taken ▸ List.takeWhile_prefix (l := name.toList.reverse) Unicode.digits.mem
    rw [← whole, List.drop_left]
  split
  · next base dropped =>
    split
    · exact .inl rfl
    · split
      · next layer value =>
        refine .inr ⟨digits, ?_, fun d member => ?_⟩
        · rw [dropped] at whole
          simpa using whole
        · simp only [wordValue?] at value
          split at value
          · cases value
          · next decimal =>
            rw [Bool.or_eq_true, not_or, Bool.not_eq_true', Bool.not_eq_false, List.all_eq_true] at decimal
            exact decimal.2 d (List.mem_reverse.mpr member)
      · exact .inl rfl
  · exact .inl rfl

/-- There is one way to read a number up to an `@`. -/
theorem digits_unique {ds es as bs : List Char} (same : ds ++ '@' :: as = es ++ '@' :: bs)
    (first : ∀ d ∈ ds, d.isDigit = true) (second : ∀ d ∈ es, d.isDigit = true) : as = bs := by
  induction ds generalizing es with
  | nil =>
    cases es with
    | nil => exact (List.cons.inj same).2
    | cons e es =>
      obtain ⟨rfl, -⟩ := List.cons.inj same
      exact absurd (second _ List.mem_cons_self) (by decide)
  | cons d ds ih =>
    cases es with
    | nil =>
      obtain ⟨rfl, -⟩ := List.cons.inj same
      exact absurd (first _ List.mem_cons_self) (by decide)
    | cons e es =>
      obtain ⟨-, same⟩ := List.cons.inj same
      exact ih same (fun d member => first d (List.mem_cons_of_mem _ member))
        fun d member => second d (List.mem_cons_of_mem _ member)

theorem isDigit_of_mem_toString {n : Nat} {d : Char} (member : d ∈ (toString n).toList) :
    d.isDigit = true := by
  have digit : d ∈ Nat.toDigits 10 n := by
    rwa [Nat.toString_eq_repr, Nat.toList_repr] at member
  exact Nat.isDigit_of_mem_toDigits (by decide) (by decide) digit

theorem reverse_layerName {base : String} {layer : Nat} (later : layer ≠ 0) :
    (layerName base layer).toList.reverse = (toString layer).toList.reverse ++ '@' :: base.toList.reverse := by
  rw [layerName, if_neg later, placeholder]
  simp

/-- The base name of a layer is that of its stack, or else the name of the layer. -/
theorem baseName_layerName (base : String) {layer : Nat} (later : layer ≠ 0) :
    baseName (layerName base layer) = base ∨ baseName (layerName base layer) = layerName base layer := by
  rcases baseName_cases (layerName base layer) with same | ⟨digits, split, decimal⟩
  · exact .inr same
  · rw [reverse_layerName later] at split
    have same := digits_unique split
      (fun d member => isDigit_of_mem_toString (List.mem_reverse.mp member)) decimal
    exact .inl (String.toList_inj.mp (List.reverse_inj.mp same.symm))

/-- A name that does not end in an `@` and a number. -/
def Plain (name : String) : Prop :=
  ∀ digits base, name.toList.reverse = digits ++ '@' :: base → ∃ d ∈ digits, d.isDigit = false

theorem baseName_of_plain {name : String} (plain : Plain name) : baseName name = name := by
  rcases baseName_cases name with same | ⟨digits, split, decimal⟩
  · exact same
  · obtain ⟨d, member, other⟩ := plain digits _ split
    rw [decimal d member] at other
    cases other

theorem plain_of_not_mem {name : String} (none : '@' ∉ name.toList) : Plain name := by
  intro digits base split
  exact absurd (List.mem_reverse.mp (split ▸ List.mem_append_right digits List.mem_cons_self)) none

/-- No layer belongs to a rule of a plain name, unless its stack is bound to that name. -/
theorem baseName_layerName_ne {base reserved : String} (plain : Plain reserved)
    (other : baseName base ≠ reserved) (layer : Nat) : baseName (layerName base layer) ≠ reserved := by
  by_cases first : layer = 0
  · rwa [first, layerName, if_pos rfl]
  · rcases baseName_layerName base first with same | same
    · rw [same]
      rintro rfl
      exact other (baseName_of_plain plain)
    · rw [same]
      rintro rfl
      obtain ⟨d, member, noDigit⟩ := plain _ _ (reverse_layerName first)
      rw [isDigit_of_mem_toString (List.mem_reverse.mp member)] at noDigit
      cases noDigit

end GrammarKit
