/-
Module: GrammarKit.Proofs.LeafOrder
Purpose: Trees lie in their input.  The leaves of a tree, read from left to right, are slices of the source one
  behind the other, between where the input starts and where the rest does, and all of these slices begin and
  end between characters.  A failure stays within the input as well.
Main exports: Slice.InOrder, Slice.LiesIn, Derives.leaves_inOrder, Program.recognizer_inOrder
-/
import GrammarKit.Parsers
import GrammarKit.Proofs.FailureOffsets

namespace GrammarKit
namespace Slice

/-- Slices of one source that stand one behind the other between two offsets. -/
def InOrder (source : Source) : Nat → Nat → List Slice → Prop
  | low, high, [] => low ≤ high
  | low, high, s :: ss => s.source = source ∧ s.Genuine ∧ low ≤ s.start ∧ InOrder source s.stop high ss

/-- A part of a source that lies between two offsets: it shows what the source holds there, it does not reach
beyond the source, and it starts and ends between characters. -/
structure LiesIn (source : Source) (low high : Nat) (s : Slice) : Prop where
  source_eq : s.source = source
  shows : s.Genuine
  low_le : low ≤ s.start
  stop_le : s.stop ≤ high
  within : s.start + s.length ≤ source.length
  start_isBorder : source.IsBorder s.start
  stop_isBorder : source.IsBorder s.stop

theorem Genuine.liesIn {s : Slice} (h : s.Genuine) {low high : Nat} (first : low ≤ s.start) (last : s.stop ≤ high) :
    s.LiesIn s.source low high :=
  ⟨rfl, h, first, last, h.stop_le, h.start_isBorder, h.stop_isBorder⟩

namespace InOrder

variable {source : Source} {low middle high : Nat} {s : Slice} {ss tt : List Slice}

theorem le (h : InOrder source low high ss) : low ≤ high := by
  induction ss generalizing low with
  | nil => exact h
  | cons s ss ih =>
    obtain ⟨-, -, first, others⟩ := h
    exact Nat.le_trans first (Nat.le_trans s.start_le_stop (ih others))

theorem of_le (le : low ≤ middle) (h : InOrder source middle high ss) : InOrder source low high ss := by
  cases ss with
  | nil => exact Nat.le_trans le h
  | cons s ss =>
    obtain ⟨same, shows, first, others⟩ := h
    exact ⟨same, shows, Nat.le_trans le first, others⟩

theorem single (same : s.source = source) (shows : s.Genuine) (first : low ≤ s.start) (last : s.stop ≤ high) :
    InOrder source low high [s] :=
  ⟨same, shows, first, last⟩

theorem append (h : InOrder source low middle ss) (h' : InOrder source middle high tt) :
    InOrder source low high (ss ++ tt) := by
  induction ss generalizing low with
  | nil => exact h'.of_le h
  | cons s ss ih =>
    obtain ⟨same, shows, first, others⟩ := h
    exact ⟨same, shows, first, ih others⟩

theorem liesIn (h : InOrder source low high ss) (member : s ∈ ss) : s.LiesIn source low high := by
  induction ss generalizing low with
  | nil => cases member
  | cons head ss ih =>
    obtain ⟨rfl, shows, first, others⟩ := h
    rcases List.mem_cons.mp member with rfl | later
    · exact shows.liesIn first others.le
    · exact ih (others.of_le (Nat.le_trans first head.start_le_stop)) later

/-- Each of the slices ends where a later one starts, or before. -/
theorem pairwise (h : InOrder source low high ss) :
    ss.Pairwise fun s later => s.start ≤ later.start ∧ s.stop ≤ later.start := by
  induction ss generalizing low with
  | nil => exact .nil
  | cons s ss ih =>
    obtain ⟨-, -, -, others⟩ := h
    refine List.pairwise_cons.mpr ⟨fun later member => ?_, ih others⟩
    have behind := (others.liesIn member).low_le
    exact ⟨Nat.le_trans s.start_le_stop behind, behind⟩

end InOrder
end Slice

/-! ### Derived trees -/

section Leaves

variable {p : Program}

mutual
/-- The leaves of a derived tree stand in order between where the input starts and where the rest does. -/
theorem Derives.leaves_inOrder : ∀ {id s tree rest}, Derives p id s tree rest → s.Genuine →
    Slice.InOrder s.source s.start rest.start tree.leaves
  | _, _, _, _, .terminal _ found, shows => by
    obtain ⟨same, first, last⟩ := Regex.match?_output_bounds found
    exact .single same (shows.output found) first last
  | _, _, _, _, .call _ d, shows => d.leaves_inOrder shows
  | _, _, _, _, .cut _ d, shows => d.leaves_inOrder shows
  | _, _, _, _, .seq _ ds, shows => ds.leaves_inOrder shows
  | _, _, _, _, .choice _ _ d, shows => by
    rw [Tree.leaves, Tree.leavesAll, Tree.leavesAll, List.append_nil]
    exact d.leaves_inOrder shows
  | _, _, _, _, .quant _ _ _ ds, shows => ds.leaves_inOrder shows
  | _, _, _, _, .list _ _ _ _ ds, shows => by
    rw [Tree.leaves_ofSlots _ _ ds.length_slots]
    exact ds.leaves_inOrder shows
  | _, _, _, _, .backref _ follows, shows =>
    -- what a back reference takes ends exactly where the rest starts
    .single rfl (shows.takeChars _) (Nat.le_refl _) (Nat.le_of_eq follows.stop_consumed)

theorem DerivesEach.leaves_inOrder : ∀ {ids s trees rest}, DerivesEach p ids s trees rest → s.Genuine →
    Slice.InOrder s.source s.start rest.start (Tree.leavesAll trees)
  | _, s, _, _, .nil, _ => Nat.le_refl s.start
  | _, _, _, _, .cons d ds, shows => by
    have others := ds.leaves_inOrder (shows.follows d.follows)
    rw [d.follows.source_eq] at others
    exact (d.leaves_inOrder shows).append others
  | _, _, _, _, .elided ds, shows => ds.leaves_inOrder shows
end

end Leaves

namespace Program

/-- **Trees lie in order inside the consumed input.**  Whatever parser of a program runs in whatever context, on an
input that shows its source: if it matches, the rest is a rest of the input with the same end, and the leaves of
the tree are slices of the source, one behind the other, between where the input starts and where the rest does;
if it fails, every offset in the tree of failures lies between the ends of the input.  The rest and the leaves lie
within the source and start and end between characters. -/
theorem recognizer_inOrder (p : Program) (fuel : Nat) (id : ParserId) (rule : String) (c : Context) (input : Slice)
    (t : Tally) (shows : input.Genuine) :
    (∀ tree rest t', p.recognizer fuel id rule c input t = (.matched (tree, rest), t') →
      rest.stop = input.stop ∧ rest.LiesIn input.source input.start input.stop ∧
        (∀ leaf ∈ tree.leaves, leaf.LiesIn input.source input.start rest.start) ∧
        tree.leaves.Pairwise fun leaf later => leaf.start ≤ later.start ∧ leaf.stop ≤ later.start) ∧
      ∀ f t', p.recognizer fuel id rule c input t = (.failed f, t') →
        ∀ offset ∈ f.offsets, input.start ≤ offset ∧ offset ≤ input.stop := by
  constructor
  · intro tree rest t' matched
    have d := p.recognizer_derives fuel id matched
    have ordered := d.leaves_inOrder shows
    have restShows := shows.follows d.follows
    refine ⟨d.follows.stop_eq, ?_, fun leaf member => ordered.liesIn member, ordered.pairwise⟩
    rw [← d.follows.source_eq]
    exact restShows.liesIn d.follows.start_le (Nat.le_of_eq d.follows.stop_eq)
  · intro f t' failed
    exact p.recognizer_failsInside fuel id failed

/-- Accented letters with commas between them, perhaps one at the end. -/
def accents : Grammar :=
  ⟨[("accents", .list (.literal "é") (.literal ",") ⟨.flat, false, true⟩)]⟩

/-- What is left of a text after an arrow of three bytes. -/
def afterArrow : Slice :=
  ⟨⟨0, "→é,é,x", none⟩, 3, "é,é,x".toList⟩

theorem recognizer_inOrder_accents : afterArrow.Genuine ∧ ∃ p, accents.compile {} = .ok p ∧ ∃ tree rest t,
    p.program.recognizer 20 0 "accents" {} afterArrow {} = (.matched (tree, rest), t) ∧
      tree.leaves.map Slice.start = [3, 5, 6, 8] ∧ rest.start = 9 ∧
      ∀ leaf ∈ tree.leaves, leaf.LiesIn afterArrow.source 3 9 := by
  have shows : afterArrow.Genuine := ⟨['→'], [], rfl, rfl⟩
  have checked : (accents.compile {}).toOption.any (fun p =>
      match p.program.recognizer 20 0 "accents" {} afterArrow {} with
      | (.matched (tree, rest), _) =>
          tree.leaves.map Slice.start == [3, 5, 6, 8] && rest.start == 9
      | _ => false) = true := by
    decide +kernel
  cases compiled : accents.compile {} with
  | error e =>
    rw [compiled] at checked
    cases checked
  | ok p =>
    simp only [compiled, Except.toOption, Option.any_some] at checked
    split at checked
    · next tree rest t matched =>
      simp only [Bool.and_eq_true, beq_iff_eq] at checked
      obtain ⟨starts, stop⟩ := checked
      obtain ⟨-, -, leaves, -⟩ :=
        (recognizer_inOrder p.program 20 0 "accents" {} afterArrow {} shows).1 tree rest t matched
      exact ⟨shows, p, rfl, tree, rest, t, matched, starts, stop, fun leaf member => stop ▸ leaves leaf member⟩
    · cases checked

end Program
end GrammarKit
