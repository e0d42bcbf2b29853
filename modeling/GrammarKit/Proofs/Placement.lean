/-
Module: GrammarKit.Proofs.Placement
Purpose: A text as a part of a larger one.  Whatever is made of a text by itself has a counterpart in the larger
  text: slices, trees and failures keep all they hold but their offsets, which move on by where the text stands.
Main exports: Placement, Placement.tree, Placement.failure, Placement.leaves_tree, Placement.message_failure
-/
import GrammarKit.Parsers
import GrammarKit.Proofs.FailureOffsets
import GrammarKit.Proofs.SliceMaps

namespace GrammarKit

/-- Where a text stands in a larger one: the source that holds it, and the offset at which it starts there. -/
structure Placement where
  source : Source
  offset : Nat

namespace Placement

variable (m : Placement)

/-! ### Slices and matches -/

/-- A slice of the text, as a slice of the larger one. -/
def slice (s : Slice) : Slice :=
  ⟨m.source, s.start + m.offset, s.chars⟩

@[simp] theorem chars_slice (s : Slice) : (m.slice s).chars = s.chars := rfl

@[simp] theorem start_slice (s : Slice) : (m.slice s).start = s.start + m.offset := rfl

@[simp] theorem text_slice (s : Slice) : (m.slice s).text = s.text := rfl

theorem takeChars_slice (s : Slice) (n : Nat) : (m.slice s).takeChars n = m.slice (s.takeChars n) := rfl

theorem dropChars_slice (s : Slice) (n : Nat) : (m.slice s).dropChars n = m.slice (s.dropChars n) := by
  simp only [slice, Slice.dropChars, Nat.add_right_comm]

theorem extract_slice (s : Slice) (first last : Nat) :
    (m.slice s).extract first last = m.slice (s.extract first last) := by
  rw [Slice.extract, dropChars_slice, takeChars_slice, Slice.extract]

theorem consumed_slice (s rest : Slice) :
    Recognizer.consumed (m.slice s) (m.slice rest) = m.slice (Recognizer.consumed s rest) := rfl

theorem splitLiteral?_slice (s : Slice) (literal : List Char) : (m.slice s).splitLiteral? literal =
    (s.splitLiteral? literal).map fun (found, rest) => (m.slice found, m.slice rest) := by
  simp only [Slice.splitLiteral?, chars_slice, takeChars_slice, dropChars_slice]
  split <;> rfl

/-- Rests of the larger text start at one offset if those of the text do. -/
theorem start_slice_eq_iff (s rest : Slice) : (m.slice rest).start = (m.slice s).start ↔ rest.start = s.start :=
  Nat.add_right_cancel_iff

theorem groupSlices_slice (s : Slice) : ∀ slots : Regex.Machine.Slots,
    Regex.groupSlices (m.slice s) slots = (Regex.groupSlices s slots).map (Option.map m.slice)
  | [] => rfl
  | [_] => rfl
  | first :: last :: slots => by
    simp only [Regex.groupSlices, List.map_cons, groupSlices_slice s slots, List.cons.injEq, and_true]
    cases first <;> cases last <;> simp [extract_slice]

/-- A match in the text, as one in the larger text. -/
def regexMatch (found : Regex.Match) : Regex.Match :=
  ⟨m.slice found.whole, found.groups.map (Option.map m.slice), m.slice found.rest⟩

theorem match?_slice (re : Regex) (s : Slice) : re.match? (m.slice s) = (re.match? s).map m.regexMatch := by
  simp only [Regex.match?, chars_slice, Option.map_map]
  congr 1
  funext found
  simp only [Function.comp, regexMatch, takeChars_slice, dropChars_slice, groupSlices_slice]

theorem output_regexMatch (found : Regex.Match) : (m.regexMatch found).output = m.slice found.output := by
  obtain ⟨whole, groups, rest⟩ := found
  simp only [Regex.Match.output, regexMatch]
  induction groups generalizing whole with
  | nil => rfl
  | cons group groups ih => cases group <;> exact ih _

/-! ### Trees -/

mutual
/-- A tree of the text, as a tree of the larger one. -/
def tree : Tree → Tree
  | .leaf s => .leaf (m.slice s)
  | .node tag extra children => .node tag extra (trees children)
  | .elided => .elided

/-- Trees of the text, as trees of the larger one. -/
def trees : List Tree → List Tree
  | [] => []
  | t :: ts => tree t :: trees ts
end

@[simp] theorem trees_eq_map (ts : List Tree) : m.trees ts = ts.map m.tree := by
  induction ts with
  | nil => rfl
  | cons t ts ih => rw [trees, ih, List.map_cons]

@[simp] theorem tree_leaf (s : Slice) : m.tree (.leaf s) = .leaf (m.slice s) := by
  rw [tree]

@[simp] theorem tree_node (tag : String) (extra : Option Extra) (children : List Tree) :
    m.tree (.node tag extra children) = .node tag extra (children.map m.tree) := by
  rw [tree, trees_eq_map]

@[simp] theorem tree_elided : m.tree .elided = .elided := by
  rw [tree]

mutual
theorem tree_eq_mapSlices : ∀ t : Tree, m.tree t = t.mapSlices m.slice
  | .leaf _ => by rw [tree_leaf, Tree.mapSlices_leaf]
  | .node _ _ children => by rw [tree, Tree.mapSlices, trees_eq_mapSlicesAll children]
  | .elided => by rw [tree_elided, Tree.mapSlices_elided]

theorem trees_eq_mapSlicesAll : ∀ ts : List Tree, m.trees ts = Tree.mapSlicesAll m.slice ts
  | [] => rfl
  | t :: ts => by rw [trees, Tree.mapSlicesAll, tree_eq_mapSlices t, trees_eq_mapSlicesAll ts]
end

theorem leaves_tree (t : Tree) : (m.tree t).leaves = t.leaves.map m.slice := by
  rw [tree_eq_mapSlices, Tree.leaves_mapSlices]

@[simp] theorem chars_tree (t : Tree) : (m.tree t).chars = t.chars := by
  rw [Tree.chars, leaves_tree, List.flatMap_map, Tree.chars]
  rfl

/-- A tree and its counterpart have the same tags, extras and texts. -/
theorem contentEq_tree (t : Tree) : (m.tree t).contentEq t = true := by
  rw [Tree.contentEq_iff, tree_eq_mapSlices, Tree.mapSlices_mapSlices]
  rfl

theorem tree_ofSlots (tag : String) (assoc : Assoc) (slots : List Tree) :
    m.tree (.ofSlots tag assoc slots) = .ofSlots tag assoc (slots.map m.tree) := by
  have same : m.tree = Tree.mapSlices m.slice := funext m.tree_eq_mapSlices
  rw [same, Tree.ofSlots_mapSlices]

/-! ### Failures -/

mutual
/-- A failure in the text, as one in the larger text. -/
def failure : Failure → Failure
  | .mk rule cause offset generation children =>
      .mk rule cause (offset + m.offset) generation (failures children)

/-- Failures in the text, as failures in the larger one. -/
def failures : List Failure → List Failure
  | [] => []
  | f :: fs => failure f :: failures fs
end

@[simp] theorem failures_eq_map (fs : List Failure) : m.failures fs = fs.map m.failure := by
  induction fs with
  | nil => rfl
  | cons f fs ih => rw [failures, ih, List.map_cons]

@[simp] theorem failure_mk (rule : String) (cause : Cause) (offset : Nat) (generation : Option Nat)
    (children : List Failure) : m.failure (.mk rule cause offset generation children)
      = .mk rule cause (offset + m.offset) generation (children.map m.failure) := by
  rw [failure, failures_eq_map]

@[simp] theorem generation_failure (f : Failure) : (m.failure f).generation = f.generation := by
  cases f
  rw [failure_mk]
  rfl

@[simp] theorem isForeign_failure (f : Failure) (own : Option Nat) :
    (m.failure f).isForeign own = f.isForeign own := by
  simp only [Failure.isForeign, generation_failure]

theorem failure_retag (f : Failure) (generation : Option Nat) :
    m.failure (f.retag generation) = (m.failure f).retag generation := by
  cases f
  rw [failure_mk, Failure.retag, Failure.retag, failure_mk]

mutual
theorem offsets_failure : ∀ f : Failure, (m.failure f).offsets = f.offsets.map (· + m.offset)
  | .mk rule cause offset generation children => by
    rw [failure_mk, Failure.offsets, Failure.offsets, List.map_cons, offsetsAll_map children]

theorem offsetsAll_map : ∀ fs : List Failure,
    Failure.offsetsAll (fs.map m.failure) = (Failure.offsetsAll fs).map (· + m.offset)
  | [] => rfl
  | f :: fs => by
    rw [List.map_cons, Failure.offsetsAll, Failure.offsetsAll, offsets_failure f, offsetsAll_map fs,
      List.map_append]
end

mutual
theorem furthest_failure : ∀ f : Failure, (m.failure f).furthest = f.furthest + m.offset
  | .mk rule cause offset generation children => by
    rw [failure_mk, Failure.furthest, Failure.furthest]
    exact furthestOf_map offset children

theorem furthestOf_map (least : Nat) : ∀ fs : List Failure,
    Failure.furthestOf (least + m.offset) (fs.map m.failure) = Failure.furthestOf least fs + m.offset
  | [] => rfl
  | f :: fs => by
    rw [List.map_cons, Failure.furthestOf, Failure.furthestOf, furthest_failure f, furthestOf_map least fs,
      Nat.add_max_add_right]
end

/-- What attempts reached in the text, they reach in the larger one. -/
theorem furthest_map (start : Nat) (fs : List Failure) :
    Recognizer.furthest (start + m.offset) (fs.map m.failure) = Recognizer.furthest start fs + m.offset := by
  induction fs generalizing start with
  | nil => rfl
  | cons f fs ih =>
    have reached := ih (max start f.furthest)
    rw [← Nat.add_max_add_right, ← furthest_failure] at reached
    exact reached

mutual
theorem lines_failure (indent : String) : ∀ f : Failure, (m.failure f).lines indent = f.lines indent
  | .mk rule cause offset generation children => by
    rw [failure_mk, Failure.lines, Failure.lines, linesAll_map (indent ++ "  ") children]

theorem linesAll_map (indent : String) : ∀ fs : List Failure,
    Failure.linesAll indent (fs.map m.failure) = Failure.linesAll indent fs
  | [] => rfl
  | f :: fs => by
    rw [List.map_cons, Failure.linesAll, Failure.linesAll, lines_failure indent f, linesAll_map indent fs]
end

/-- A failure says the same wherever the text stands. -/
theorem message_failure (f : Failure) : (m.failure f).message = f.message := by
  rw [Failure.message, lines_failure, Failure.message]

/-! ### Contexts and results -/

/-- A context of the text, as one of the larger text. -/
def context (c : Context) : Context :=
  { c with bindings := c.bindings.map fun (name, bound) => (name, m.tree bound) }

@[simp] theorem context_empty : m.context {} = {} := rfl

@[simp] theorem generation_context (c : Context) : (m.context c).generation = c.generation := rfl

theorem find?_context (c : Context) (name : String) : (m.context c).find? name = (c.find? name).map m.tree := by
  obtain ⟨bindings, generation⟩ := c
  exact Table.lookup_mapValues m.tree name bindings

theorem after_context (step : Recognizer.Step) (c : Context) (t : Tree) :
    step.after (m.context c) (m.tree t) = m.context (step.after c t) := by
  simp only [Recognizer.Step.after]
  cases step.bind <;> rfl

/-- A context inside an operator, in the larger text. -/
def enclosed (e : Enclosed) : Enclosed :=
  { e with context := m.context e.context }

@[simp] theorem context_enclosed (e : Enclosed) : (m.enclosed e).context = m.context e.context := rfl

@[simp] theorem outer_enclosed (e : Enclosed) : (m.enclosed e).outer = e.outer := rfl

@[simp] theorem own_enclosed (e : Enclosed) : (m.enclosed e).own = e.own := rfl

theorem enclose_context (c : Context) (force : Bool) (t : Tally) :
    (m.context c).enclose force t = (m.enclosed (c.enclose force t).1, (c.enclose force t).2) := by
  obtain ⟨bindings, generation⟩ := c
  cases generation <;> cases force <;> rfl

/-- How an attempt on the text ends, as an end of one on the larger text. -/
def outcome {α : Type} (value : α → α) : Outcome α → Outcome α
  | .matched a => .matched (value a)
  | .failed f => .failed (m.failure f)
  | .exhausted => .exhausted

/-- The end of an attempt, with what has been counted. -/
def result {α : Type} (value : α → α) (r : Outcome α × Tally) : Outcome α × Tally :=
  (m.outcome value r.1, r.2)

@[simp] theorem result_matched {α : Type} (value : α → α) (a : α) (t : Tally) :
    m.result value (.matched a, t) = (.matched (value a), t) := rfl

@[simp] theorem result_failed {α : Type} (value : α → α) (f : Failure) (t : Tally) :
    m.result value (.failed f, t) = (.failed (m.failure f), t) := rfl

@[simp] theorem result_exhausted {α : Type} (value : α → α) (t : Tally) :
    m.result value (.exhausted, t) = (.exhausted, t) := rfl

/-- A tree and what is left of the text. -/
def parsed (found : Tree × Slice) : Tree × Slice :=
  (m.tree found.1, m.slice found.2)

/-- Trees and what is left of the text. -/
def parsedAll (found : List Tree × Slice) : List Tree × Slice :=
  (found.1.map m.tree, m.slice found.2)

end Placement
end GrammarKit
