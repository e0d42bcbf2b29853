/-
Module: GrammarKit.Proofs.SourceParts
Purpose: Slices as parts of their source.  A genuine slice shows what stands in its source where it starts, so it
  lies within the source and both of its ends are borders of characters.  Whatever is cut out of it, and
  whatever is matched in it, is genuine again.
Main exports: Slice.Genuine, Source.IsBorder, Slice.Genuine.stop_le, Slice.Genuine.output, Slice.Genuine.span
-/
import GrammarKit.Proofs.MatchInvariant

namespace GrammarKit

theorem byteLength_take_mono (cs : List Char) {m n : Nat} (le : m ≤ n) :
    byteLength (cs.take m) ≤ byteLength (cs.take n) := by
  obtain ⟨k, rfl⟩ := Nat.exists_eq_add_of_le le
  rw [List.take_add, byteLength_append]
  exact Nat.le_add_right _ _

/-- The number of bytes of a source. -/
def Source.length (source : Source) : Nat :=
  byteLength source.text.toList

/-- An offset at which a character of the source starts, or the source ends. -/
def Source.IsBorder (source : Source) (offset : Nat) : Prop :=
  ∃ before after, source.text.toList = before ++ after ∧ offset = byteLength before

namespace Slice

theorem start_le_stop (s : Slice) : s.start ≤ s.stop :=
  Nat.le_add_right _ _

@[simp] theorem start_takeChars (s : Slice) (n : Nat) : (s.takeChars n).start = s.start := rfl

theorem stop_takeChars (s : Slice) (n : Nat) : (s.takeChars n).stop = (s.dropChars n).start := rfl

theorem stop_dropChars (s : Slice) (n : Nat) : (s.dropChars n).stop = s.stop := by
  simp only [stop, length, dropChars]
  rw [Nat.add_assoc, ← byteLength_append, List.take_append_drop]

theorem start_dropChars_mono (s : Slice) {m n : Nat} (le : m ≤ n) : (s.dropChars m).start ≤ (s.dropChars n).start :=
  Nat.add_le_add_left (byteLength_take_mono s.chars le) s.start

/-- A part of a slice ends with its last character, or where it starts if it is empty. -/
theorem stop_extract (s : Slice) (first last : Nat) :
    (s.extract first last).stop = (s.dropChars (max first last)).start := by
  rw [extract, stop_takeChars, dropChars_dropChars]
  congr 2
  omega

theorem Follows.source_eq {s rest : Slice} (h : rest.Follows s) : rest.source = s.source := by
  obtain ⟨n, rfl⟩ := h
  rfl

/-- What is left of a slice ends where the slice does. -/
theorem Follows.stop_eq {s rest : Slice} (h : rest.Follows s) : rest.stop = s.stop := by
  obtain ⟨n, rfl⟩ := h
  exact s.stop_dropChars n

/-- What has been taken ends where the rest starts. -/
theorem Follows.stop_consumed {s rest : Slice} (h : rest.Follows s) :
    (Recognizer.consumed s rest).stop = rest.start := by
  obtain ⟨n, rfl⟩ := h
  rw [Recognizer.consumed, stop_takeChars]
  have same : s.chars.take (s.chars.length - (s.chars.drop n).length) = s.chars.take n := by
    rw [List.length_drop, List.take_eq_take_iff]
    omega
  exact congrArg (s.start + byteLength ·) same

/-! ### Genuine slices -/

/-- A slice shows what stands in its source where it starts. -/
def Genuine (s : Slice) : Prop :=
  ∃ before after, s.source.text.toList = before ++ (s.chars ++ after) ∧ s.start = byteLength before

theorem genuine_whole (source : Source) : source.whole.Genuine :=
  ⟨[], [], (List.append_nil _).symm, rfl⟩

namespace Genuine

variable {s rest : Slice}

theorem start_isBorder (h : s.Genuine) : s.source.IsBorder s.start := by
  obtain ⟨before, after, text, start⟩ := h
  exact ⟨before, _, text, start⟩

theorem stop_isBorder (h : s.Genuine) : s.source.IsBorder s.stop := by
  obtain ⟨before, after, text, start⟩ := h
  refine ⟨before ++ s.chars, after, text.trans (List.append_assoc _ _ _).symm, ?_⟩
  rw [stop, length, start, byteLength_append]

theorem stop_le (h : s.Genuine) : s.stop ≤ s.source.length := by
  obtain ⟨before, after, text, start⟩ := h
  rw [stop, length, start, Source.length, text, byteLength_append, byteLength_append]
  omega

theorem dropChars (h : s.Genuine) (n : Nat) : (s.dropChars n).Genuine := by
  obtain ⟨before, after, text, start⟩ := h
  refine ⟨before ++ s.chars.take n, after, ?_, ?_⟩
  · rw [List.append_assoc, ← List.append_assoc (s.chars.take n)]
    simpa only [Slice.dropChars, List.take_append_drop] using text
  · simp only [Slice.dropChars, byteLength_append, start]

theorem takeChars (h : s.Genuine) (n : Nat) : (s.takeChars n).Genuine := by
  obtain ⟨before, after, text, start⟩ := h
  refine ⟨before, s.chars.drop n ++ after, ?_, start⟩
  rw [← List.append_assoc (s.takeChars n).chars]
  simpa only [Slice.takeChars, List.take_append_drop] using text

theorem extract (h : s.Genuine) (first last : Nat) : (s.extract first last).Genuine :=
  (h.dropChars first).takeChars _

theorem follows (h : s.Genuine) (follows : rest.Follows s) : rest.Genuine := by
  obtain ⟨n, rfl⟩ := follows
  exact h.dropChars n

/-- What is matched in a slice that shows its source does so as well. -/
theorem output {re : Regex} {m : Regex.Match} (h : s.Genuine) (matched : re.match? s = some m) :
    m.output.Genuine := by
  simp only [Regex.match?, Option.map_eq_some_iff] at matched
  obtain ⟨⟨length, slots⟩, -, rfl⟩ := matched
  rcases Regex.Match.output_mem _ with whole | group
  · rw [whole]
    exact h.takeChars length
  · obtain ⟨first, last, -, -, same⟩ := Regex.mem_groupSlices group
    rw [same]
    exact h.extract first last

end Genuine

theorem splitBytes_byteLength (before after : List Char) :
    splitBytes (byteLength before) (before ++ after) = (before, after) := by
  induction before with
  | nil =>
    cases after with
    | nil => rfl
    | cons c cs =>
      have := c.utf8Size_pos
      rw [List.nil_append, splitBytes, if_neg (by rw [byteLength_nil]; omega)]
  | cons c cs ih =>
    rw [List.cons_append, splitBytes, if_pos (by rw [byteLength_cons]; omega), byteLength_cons,
      Nat.add_sub_cancel_left, ih]

/-- A slice that shows its source is what the source holds between its ends. -/
theorem Genuine.span {s : Slice} (h : s.Genuine) : s.source.span s.start s.stop = s := by
  obtain ⟨before, after, text, start⟩ := h
  obtain ⟨source, first, chars⟩ := s
  simp only at text start
  subst start
  simp only [Source.span, Slice.stop, Slice.length, text, splitBytes_byteLength, Nat.add_sub_cancel_left]

end Slice

/-- What a match puts out lies within what it takes. -/
theorem Regex.match?_output_bounds {re : Regex} {s : Slice} {m : Match} (h : re.match? s = some m) :
    m.output.source = s.source ∧ s.start ≤ m.output.start ∧ m.output.stop ≤ m.rest.start := by
  simp only [match?, Option.map_eq_some_iff] at h
  obtain ⟨⟨length, slots⟩, found, rfl⟩ := h
  obtain ⟨-, -, extents⟩ := (Machine.recordedUpTo_invariant re.machine s.chars).run found
  rcases Match.output_mem _ with whole | group
  · rw [whole]
    exact ⟨rfl, Nat.le_refl _, Nat.le_of_eq (s.stop_takeChars length)⟩
  · obtain ⟨first, last, start, stop, same⟩ := mem_groupSlices group
    have first_le := extents first (List.mem_of_mem_drop start)
    have last_le := extents last (List.mem_of_mem_drop stop)
    rw [same, Slice.stop_extract]
    exact ⟨rfl, (s.follows_dropChars first).start_le, s.start_dropChars_mono (Nat.max_le.mpr ⟨first_le, last_le⟩)⟩

end GrammarKit
