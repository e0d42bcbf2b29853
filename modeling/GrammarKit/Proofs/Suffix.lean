/-
Module: GrammarKit.Proofs.Suffix
Purpose: What is left of a slice after some characters.  Every parser hands on such a rest, and the offset
  at which a rest starts tells whether anything has been taken.
Main exports: Slice.Follows, Slice.Follows.trans, Slice.Follows.eq_of_start_eq, Slice.Follows.length_lt
-/
import Mathlib.Tactic.Common
import GrammarKit.Parse.Recognizer

namespace GrammarKit

theorem byteLength_take_pos {cs : List Char} {n : Nat} (h : cs.take n ≠ []) :
    0 < byteLength (cs.take n) := by
  cases hcs : cs.take n with
  | nil => exact absurd hcs h
  | cons c rest =>
    have := c.utf8Size_pos
    simp only [byteLength_cons]
    omega

namespace Slice

/-- What is left of a slice after some of its characters. -/
def Follows (rest s : Slice) : Prop :=
  ∃ n, rest = s.dropChars n

theorem dropChars_zero (s : Slice) : s.dropChars 0 = s := by
  simp [dropChars]

theorem dropChars_dropChars (s : Slice) (m n : Nat) :
    (s.dropChars m).dropChars n = s.dropChars (m + n) := by
  simp only [dropChars, List.drop_drop, Slice.mk.injEq, true_and]
  refine ⟨?_, by simp⟩
  rw [Nat.add_assoc, ← byteLength_append, List.take_add]

theorem follows_dropChars (s : Slice) (n : Nat) : (s.dropChars n).Follows s :=
  ⟨n, rfl⟩

namespace Follows

variable {s rest next : Slice}

theorem refl (s : Slice) : s.Follows s :=
  ⟨0, s.dropChars_zero.symm⟩

theorem trans (h : next.Follows rest) (h' : rest.Follows s) : next.Follows s := by
  obtain ⟨m, rfl⟩ := h'
  obtain ⟨n, rfl⟩ := h
  exact ⟨m + n, dropChars_dropChars s m n⟩

theorem length_le (h : rest.Follows s) : rest.chars.length ≤ s.chars.length := by
  obtain ⟨n, rfl⟩ := h
  simp [dropChars]

theorem start_le (h : rest.Follows s) : s.start ≤ rest.start := by
  obtain ⟨n, rfl⟩ := h
  simp [dropChars]

/-- A rest that starts where the slice starts is the slice: every character takes a byte. -/
theorem eq_of_start_eq (h : rest.Follows s) (same : rest.start = s.start) : rest = s := by
  obtain ⟨n, rfl⟩ := h
  have taken : s.chars.take n = [] := by
    by_contra nonempty
    have := byteLength_take_pos nonempty
    simp only [dropChars] at same
    omega
  rcases List.take_eq_nil_iff.mp taken with zero | empty
  · rw [zero, dropChars_zero]
  · cases s
    simp_all [dropChars]

/-- A rest that starts elsewhere is shorter. -/
theorem length_lt (h : rest.Follows s) (other : rest.start ≠ s.start) :
    rest.chars.length < s.chars.length := by
  obtain ⟨n, rfl⟩ := h
  by_contra notLess
  apply other
  simp only [dropChars, List.length_drop] at notLess ⊢
  have taken : s.chars.take n = [] := by
    rw [List.take_eq_nil_iff]
    by_cases empty : s.chars = []
    · exact .inr empty
    · have := List.length_pos_iff.mpr empty
      exact .inl (by omega)
  simp [taken]

theorem eq_of_length_eq (h : rest.Follows s) (same : rest.chars.length = s.chars.length) :
    rest = s := by
  by_cases start : rest.start = s.start
  · exact h.eq_of_start_eq start
  · have := h.length_lt start
    omega

/-- If two steps leave everything, so does each. -/
theorem eq_both (h : next.Follows s) (h' : rest.Follows next) (same : rest = s) : next = s ∧ rest = next := by
  have between : next = s := by
    apply h.eq_of_length_eq
    have := h.length_le
    have := h'.length_le
    rw [same] at *
    omega
  exact ⟨between, same.trans between.symm⟩

/-- What was taken and what is left make up the slice. -/
theorem consumed_append (h : rest.Follows s) :
    (Recognizer.consumed s rest).chars ++ rest.chars = s.chars := by
  obtain ⟨n, rfl⟩ := h
  simp only [Recognizer.consumed, takeChars, dropChars, List.length_drop]
  by_cases short : n ≤ s.chars.length
  · rw [show s.chars.length - (s.chars.length - n) = n by omega, List.take_append_drop]
  · rw [show s.chars.length - (s.chars.length - n) = s.chars.length by omega]
    simp [List.drop_eq_nil_of_le (show s.chars.length ≤ n by omega)]

/-- Nothing was taken exactly if what was taken shows no text. -/
theorem consumed_eq_nil_iff (h : rest.Follows s) :
    (Recognizer.consumed s rest).chars = [] ↔ rest = s := by
  constructor
  · intro nothing
    have whole := h.consumed_append
    rw [nothing, List.nil_append] at whole
    exact h.eq_of_length_eq (by rw [whole])
  · rintro rfl
    simp [Recognizer.consumed, takeChars]

end Follows

/-- The first characters of a slice are what is taken if the others are left. -/
theorem takeChars_eq_consumed {s : Slice} {n : Nat} (within : n ≤ s.chars.length) :
    s.takeChars n = Recognizer.consumed s (s.dropChars n) := by
  simp only [Recognizer.consumed, dropChars, List.length_drop]
  rw [show s.chars.length - (s.chars.length - n) = n by omega]

theorem splitLiteral?_eq_some {s found rest : Slice} {literal : List Char}
    (h : s.splitLiteral? literal = some (found, rest)) :
    found = s.takeChars literal.length ∧ rest = s.dropChars literal.length ∧
      s.chars = literal ++ rest.chars ∧ found.chars = literal := by
  simp only [splitLiteral?] at h
  split at h
  · rename_i isPrefix
    obtain ⟨tail, whole⟩ := List.isPrefixOf_iff_prefix.mp isPrefix
    simp only [Option.some.injEq, Prod.mk.injEq] at h
    obtain ⟨rfl, rfl⟩ := h
    simp [takeChars, dropChars, ← whole]
  · simp at h

end Slice
end GrammarKit
