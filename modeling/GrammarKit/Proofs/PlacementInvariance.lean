/-
Module: GrammarKit.Proofs.PlacementInvariance
Purpose: Parsing never looks behind the cursor.  A parser that runs in the middle of a source does what it does on
  the rest of the source as a text of its own; only the offsets differ, by where that rest starts.
Main exports: Recognizer.Places, Program.recognizer_places, Parsers.run_skip, Parsers.parsePartial_skip
-/
import GrammarKit.Proofs.Placement

namespace GrammarKit
namespace Recognizer

variable {m : Placement}

/-- A recognizer that does the same on a text wherever the text stands. -/
def Places (m : Placement) (run : Recognizer) : Prop :=
  ∀ rule c s t, run rule (m.context c) (m.slice s) t = m.result m.parsed (run rule c s t)

theorem terminal_places (regex : Regex) (expected : String) : (terminal regex expected).Places m := by
  intro rule c s t
  simp only [terminal, m.match?_slice]
  cases regex.match? s with
  | none => simp
  | some found =>
    simp only [Option.map_some, m.output_regexMatch]
    simp [Placement.parsed, Placement.regexMatch]

/-! ### Sequences -/

theorem sequenceFailure_map (labelled : Bool) (rule : String) (index offset : Nat) (f : Failure) :
    sequenceFailure labelled rule index (offset + m.offset) (m.failure f)
      = m.failure (sequenceFailure labelled rule index offset f) := by
  cases labelled
  · rfl
  · simp [sequenceFailure]

theorem retag_map (handed : Prop) [Decidable handed] (outer : Option Nat) (f : Failure) :
    (if handed then (m.failure f).retag outer else m.failure f) = m.failure (if handed then f.retag outer else f) := by
  split
  · exact (m.failure_retag f outer).symm
  · rfl

theorem sequenceFrom_places {labelled : Bool} {rule : String} {outer own : Option Nat} {steps : List Step}
    (places : ∀ step ∈ steps, step.run.Places m) (index : Nat) (crossed : Bool) (c : Context) (s : Slice) (t : Tally) :
    sequenceFrom labelled rule outer own steps index crossed (m.context c) (m.slice s) t
      = m.result m.parsedAll (sequenceFrom labelled rule outer own steps index crossed c s t) := by
  induction steps generalizing index crossed c s t with
  | nil => rfl
  | cons step steps ih =>
    obtain ⟨here, later⟩ := List.forall_mem_cons.mp places
    simp only [sequenceFrom, here rule c s t]
    rcases step.run rule c s t with ⟨⟨tree, next⟩ | f | _, t'⟩
    · simp only [m.result_matched, Placement.parsed, m.after_context]
      rw [ih later (index + 1) (crossed || step.cut) (step.after c tree) next t']
      rcases sequenceFrom labelled rule outer own steps (index + 1) (crossed || step.cut) (step.after c tree) next t'
        with ⟨⟨trees, rest⟩ | f | _, t''⟩ <;> rfl
    · simp only [m.result_failed, m.generation_failure, m.start_slice]
      rw [retag_map, sequenceFailure_map]
    · rfl

theorem sequence_places (label : Option String) {steps : List Step} (places : ∀ step ∈ steps, step.run.Places m) :
    (sequence label steps).Places m := by
  intro rule c s t
  simp only [sequence, m.enclose_context]
  generalize c.enclose (steps.any Step.cut) t = inner
  obtain ⟨e, t⟩ := inner
  simp only [m.context_enclosed, m.outer_enclosed, m.own_enclosed]
  rw [sequenceFrom_places places]
  rcases sequenceFrom label.isSome rule e.outer e.own steps 0 false e.context s t
    with ⟨⟨trees, rest⟩ | f | _, t'⟩
  · simp [Placement.parsed, Placement.parsedAll]
  · rfl
  · rfl

/-! ### Choices -/

theorem choiceFrom_places {tag rule : String} {e : Enclosed} {s : Slice} {alternatives : List Recognizer}
    (places : ∀ run ∈ alternatives, run.Places m) (index : Nat) (failures : List Failure) (t : Tally) :
    choiceFrom tag rule (m.enclosed e) (m.slice s) alternatives index (failures.map m.failure) t
      = m.result m.parsed (choiceFrom tag rule e s alternatives index failures t) := by
  induction alternatives generalizing index failures t with
  | nil =>
    simp only [choiceFrom, m.result_failed, m.failure_mk, m.start_slice, ← List.map_reverse, m.furthest_map,
      m.outer_enclosed]
  | cons run alternatives ih =>
    obtain ⟨here, later⟩ := List.forall_mem_cons.mp places
    simp only [choiceFrom, m.context_enclosed, m.own_enclosed, here rule e.context s t]
    rcases run rule e.context s t with ⟨⟨tree, rest⟩ | f | _, t'⟩
    · simp [Placement.parsed]
    · simp only [m.result_failed, m.isForeign_failure]
      split
      · rfl
      · exact ih later (index + 1) (f :: failures) t'.backtrack
    · rfl

theorem choice_places (label : Option String) {alternatives : List Recognizer}
    (places : ∀ run ∈ alternatives, run.Places m) : (choice label alternatives).Places m := by
  intro rule c s t
  simp only [choice, m.enclose_context]
  exact choiceFrom_places places 0 [] _

/-! ### Repetitions -/

theorem toList_padRepetitions (min : Nat) (trees : Array Tree) (tree : Tree) :
    (padRepetitions min (trees.map m.tree) (m.tree tree)).toList
      = (padRepetitions min trees tree).toList.map m.tree := by
  simp [padRepetitions]

/-- What a repetition has come to, in the larger text: its trees, what is left, and the failure that ended it. -/
def placedRepetition (m : Placement) (found : List Tree × Slice × Option Failure) :
    List Tree × Slice × Option Failure :=
  (found.1.map m.tree, m.slice found.2.1, found.2.2.map m.failure)

theorem repeatFrom_places {run : Recognizer} (places : run.Places m) {rule : String} {e : Enclosed} {min max : Nat}
    (fuel : Nat) (trees : Array Tree) (s : Slice) (t : Tally) :
    repeatFrom run rule (m.enclosed e) min max fuel (trees.map m.tree) (m.slice s) t
      = m.result (placedRepetition m) (repeatFrom run rule e min max fuel trees s t) := by
  induction fuel generalizing trees s t with
  | zero => rfl
  | succ fuel ih =>
    simp only [repeatFrom, Array.size_map]
    split
    · simp [placedRepetition]
    · simp only [m.context_enclosed, m.own_enclosed, places rule e.context s t]
      rcases run rule e.context s t with ⟨⟨tree, next⟩ | f | _, t'⟩
      · simp only [m.result_matched, Placement.parsed, m.start_slice_eq_iff]
        split
        · simp [placedRepetition, toList_padRepetitions]
        · rw [← Array.map_push]
          exact ih (trees.push tree) next t'
      · simp only [m.result_failed, m.isForeign_failure]
        split
        · rfl
        · simp [placedRepetition]
      · rfl

theorem repetition_places (label : Option String) {run : Recognizer} (places : run.Places m) (min max : Nat) :
    (repetition label run min max).Places m := by
  intro rule c s t
  simp only [repetition, m.enclose_context, m.chars_slice]
  generalize c.enclose false t = inner
  obtain ⟨e, t⟩ := inner
  have same := @repeatFrom_places m run places rule e min max (s.chars.length + 2) #[] s t
  rw [Array.map_empty] at same
  rw [same]
  rcases repeatFrom run rule e min max (s.chars.length + 2) #[] s t with ⟨⟨trees, rest, last⟩ | f | _, t'⟩
  · simp only [m.result_matched, placedRepetition, List.length_map]
    split
    · simp [Placement.parsed]
    · cases last <;> simp
  · rfl
  · rfl

/-! ### Lists -/

section Lists

variable {parts : ListParts} (element : parts.element.Places m) (separator : parts.separator.Places m) {rule : String}

/-- A pair of a list, in the larger text. -/
def placedPair (m : Placement) (pair : Pair) : Pair :=
  ⟨m.tree pair.separator, pair.element.map m.tree, m.slice pair.rest⟩

include element separator in
theorem pair_places (e : Enclosed) (mayElide : Bool) (s : Slice) (t : Tally) :
    pair parts rule (m.enclosed e) mayElide (m.slice s) t
      = m.result (Option.map (placedPair m)) (pair parts rule e mayElide s t) := by
  have inner : (if parts.cutSeparator then (m.enclosed e).context.enclose true t
        else (⟨(m.enclosed e).context, (m.enclosed e).own, (m.enclosed e).own⟩, t))
      = (m.enclosed (if parts.cutSeparator then e.context.enclose true t else (⟨e.context, e.own, e.own⟩, t)).1,
        (if parts.cutSeparator then e.context.enclose true t else (⟨e.context, e.own, e.own⟩, t)).2) := by
    cases parts.cutSeparator
    · rfl
    · exact m.enclose_context e.context true t
  simp only [pair, inner]
  generalize (if parts.cutSeparator then e.context.enclose true t else (⟨e.context, e.own, e.own⟩, t)) = opened
  obtain ⟨e', t⟩ := opened
  simp only [m.context_enclosed, m.outer_enclosed, m.own_enclosed, separator rule e'.context s t]
  rcases parts.separator rule e'.context s t with ⟨⟨tree, next⟩ | f | _, t'⟩
  · simp only [m.result_matched, Placement.parsed, element rule e'.context next t']
    rcases parts.element rule e'.context next t' with ⟨⟨tree', rest⟩ | f | _, t''⟩
    · rfl
    · simp only [m.result_failed, m.isForeign_failure, m.generation_failure]
      cases parts.cutSeparator <;> cases f.isForeign e.own <;> cases mayElide <;>
        cases f.generation == e'.own <;> rfl
    · rfl
  · simp only [m.result_failed, m.generation_failure]
    rw [retag_map, m.isForeign_failure]
    generalize (if (f.generation == e'.own) = true then f.retag e'.outer else f) = handed
    cases handed.isForeign e.own <;> rfl
  · rfl

include element separator in
theorem listHead_places (e : Enclosed) (s : Slice) (t : Tally) :
    listHead parts rule (m.enclosed e) (m.slice s) t = m.result m.parsedAll (listHead parts rule e s t) := by
  simp only [listHead, m.context_enclosed, m.own_enclosed, m.outer_enclosed, element rule e.context s t]
  rcases parts.element rule e.context s t with ⟨⟨tree, rest⟩ | f | _, t'⟩
  · rfl
  · simp only [m.result_failed, m.isForeign_failure]
    split
    · rfl
    · split
      · simp
      · rw [pair_places element separator]
        rcases pair parts rule e false s t' with ⟨(_ | ⟨separator, _ | element, rest⟩) | f | _, t''⟩
        all_goals simp [placedPair, Placement.parsedAll]
  · rfl

include element separator in
theorem listTail_places (e : Enclosed) (fuel : Nat) (slots : Array Tree) (s : Slice) (t : Tally) :
    listTail parts rule (m.enclosed e) fuel (slots.map m.tree) (m.slice s) t
      = m.result m.parsedAll (listTail parts rule e fuel slots s t) := by
  induction fuel generalizing slots s t with
  | zero => rfl
  | succ fuel ih =>
    simp only [listTail]
    rw [pair_places element separator]
    rcases pair parts rule e parts.style.trailing s t with ⟨(_ | ⟨separator, element, rest⟩) | f | _, t'⟩
    · simp [Placement.parsedAll]
    · have pushed : ((slots.map m.tree).push (m.tree separator)).push ((element.map m.tree).getD .elided)
          = ((slots.push separator).push (element.getD .elided)).map m.tree := by
        cases element <;> simp
      have still : ((m.slice rest).start == (m.slice s).start) = (rest.start == s.start) := by
        simp
      simp only [m.result_matched, Option.map_some, placedPair, Option.isNone_map, pushed, still]
      split
      · simp [Placement.parsedAll]
      · exact ih _ rest t'
    · rfl
    · rfl

include element separator in
theorem list_places (label : Option String) : (list label parts).Places m := by
  intro rule c s t
  simp only [list, m.enclose_context, m.chars_slice]
  generalize c.enclose false t = inner
  obtain ⟨e, t⟩ := inner
  simp only
  rw [listHead_places element separator]
  rcases listHead parts rule e s t with ⟨⟨slots, rest⟩ | f | _, t'⟩
  · simp only [m.result_matched, Placement.parsedAll]
    rw [← List.map_toArray, listTail_places element separator]
    rcases listTail parts rule e (s.chars.length + 2) slots.toArray rest t' with ⟨⟨slots', rest'⟩ | f | _, t''⟩
    · simp [Placement.parsed, Placement.parsedAll, m.tree_ofSlots]
    · rfl
    · rfl
  · rfl
  · rfl

end Lists

/-! ### Back references -/

theorem backref_places (name : String) {default : Option Recognizer} (places : ∀ run ∈ default, run.Places m) :
    (backref name default).Places m := by
  intro rule c s t
  simp only [backref, m.find?_context]
  cases c.find? name with
  | some bound =>
    simp only [Option.map_some, m.chars_tree, m.splitLiteral?_slice]
    cases s.splitLiteral? bound.chars with
    | none => simp
    | some found => simp [Placement.parsed]
  | none =>
    cases default with
    | none => simp
    | some run =>
      simp only [Option.map_none, places run rfl name c s t]
      rcases run name c s t with ⟨⟨tree, rest⟩ | f | _, t'⟩
      · simp [Placement.parsed, m.consumed_slice]
      · rfl
      · rfl

/-! ### Programs -/

theorem operator_places {self : ParserId → Recognizer} (places : ∀ id, (self id).Places m) (label : Option String)
    (operator : Operator) : (operator.recognizer self label).Places m := by
  cases operator with
  | pending name =>
    intro rule c s t
    simp [Operator.recognizer]
  | terminal terminal => exact terminal_places _ _
  | call target => exact places target
  | cut inner => exact places inner
  | seq items =>
    refine sequence_places label fun step member => ?_
    obtain ⟨item, -, rfl⟩ := List.mem_map.mp member
    exact places item.parser
  | choice alternatives =>
    refine choice_places label fun run member => ?_
    obtain ⟨id, -, rfl⟩ := List.mem_map.mp member
    exact places id
  | list element separator style cutSeparator => exact list_places (places element) (places separator) label
  | quant term min max => exact repetition_places label (places term) min max
  | backref name default =>
    intro rule c s t
    have run := @backref_places m name (default.map self) fun run member => by
      obtain ⟨id, -, rfl⟩ := Option.map_eq_some_iff.mp member
      exact places id
    exact run name c s t

end Recognizer

/-- A program does the same on a text wherever the text stands. -/
theorem Program.recognizer_places (m : Placement) (p : Program) (fuel : Nat) (id : ParserId) :
    (p.recognizer fuel id).Places m := by
  induction fuel generalizing id with
  | zero => exact fun _ _ _ _ => rfl
  | succ fuel ih =>
    intro rule c s t
    simp only [recognizer]
    cases p.parsers[id]? with
    | none => rfl
    | some parser => exact Recognizer.operator_places ih parser.label parser.operator _ c s t.attempt

namespace Placement

variable (m : Placement)

/-- An error in the text, as one in the larger text. -/
def error : Error → Error
  | .parse f => .parse (m.failure f)
  | .fatal f => .fatal (m.failure f)
  | .unconsumedInput residue tree => .unconsumedInput (m.slice residue) (m.tree tree)
  | e => e

/-- What has been made of the text or has gone wrong with it, in the larger text. -/
def except {α : Type} (value : α → α) : Except Error α → Except Error α
  | .ok a => .ok (value a)
  | .error e => .error (m.error e)

theorem kind_error (e : Error) : (m.error e).kind = e.kind := by
  cases e <;> rfl

theorem ofOutcome_outcome {α : Type} (value : α → α) (o : Outcome α) :
    Parsers.ofOutcome (m.outcome value o) = m.except value (Parsers.ofOutcome o) := by
  cases o with
  | matched a => rfl
  | failed f =>
    simp only [outcome, Parsers.ofOutcome, generation_failure]
    cases f.generation <;> rfl
  | exhausted => rfl

theorem requireAll_parsed (found : Tree × Slice) :
    Parsers.requireAll (m.parsed found) = m.except m.tree (Parsers.requireAll found) := by
  obtain ⟨tree, source, start, chars⟩ := found
  cases chars <;> rfl

theorem message_ofOutcome {α : Type} {o : Outcome α} {e : Error} (failed : Parsers.ofOutcome o = .error e) :
    (m.error e).message = e.message := by
  cases o with
  | matched a => cases failed
  | failed f =>
    simp only [Parsers.ofOutcome, Except.error.injEq] at failed
    split at failed
    · subst failed
      exact congrArg ("fatal " ++ ·) (m.message_failure f)
    · subst failed
      exact m.message_failure f
  | exhausted =>
    cases failed
    rfl

/-- What stands behind some characters of a source is a text of its own, in its place. -/
theorem slice_whole (source fresh : Source) (before : List Char)
    (text : source.text.toList = before ++ fresh.text.toList) :
    (⟨source, byteLength before⟩ : Placement).slice fresh.whole = source.whole.dropBytes (byteLength before) := by
  simp only [slice, Slice.dropBytes, Source.whole, text, Slice.splitBytes_byteLength]

end Placement

namespace Parsers

theorem runPartial_slice (m : Placement) (p : Parsers) (rule : String) (s : Slice) :
    p.runPartial rule (m.slice s) = (m.except m.parsed (p.runPartial rule s).1, (p.runPartial rule s).2) := by
  simp only [runPartial]
  cases p.program.rules.get? rule with
  | none => rfl
  | some slot =>
    have same := Program.recognizer_places m p.program (p.program.fuelFor s) slot rule {} s {}
    simp only [Program.start, m.context_empty] at same ⊢
    have fuel : p.program.fuelFor (m.slice s) = p.program.fuelFor s := rfl
    rw [fuel, same]
    simp only [Placement.result, m.ofOutcome_outcome]

theorem run_slice (m : Placement) (p : Parsers) (rule : String) (s : Slice) :
    p.run rule (m.slice s) = (m.except m.tree (p.run rule s).1, (p.run rule s).2) := by
  simp only [run, p.runPartial_slice]
  cases (p.runPartial rule s).1 with
  | error e => rfl
  | ok found => exact Prod.ext (m.requireAll_parsed found) rfl

theorem message_error_parsePartial (m : Placement) {p : Parsers} {rule : String} {s : Slice} {e : Error}
    (failed : p.parsePartial rule s = .error e) : (m.error e).message = e.message := by
  simp only [parsePartial, runPartial] at failed
  split at failed
  · cases failed
    rfl
  · exact m.message_ofOutcome failed

/-- **Parsing never looks behind the cursor.**  Behind any beginning of a source, a parse does what it does on the
rest of the source as a fresh text, and counts the same: the result is the same but for the offsets, which are
greater by the length of the beginning.  So are the leaves of a tree and the offsets of a failure, the furthest
one included; tags, extras and texts of trees, and messages, notes and generations of failures stay as they are. -/
theorem parsePartial_skip (p : Parsers) (rule before after : String) (id id' : Nat)
    (filename filename' : Option String) :
    let m : Placement := ⟨⟨id, before ++ after, filename⟩, byteLength before.toList⟩
    let skipped := m.source.whole.dropBytes m.offset
    let fresh := Source.whole ⟨id', after, filename'⟩
    p.runPartial rule skipped = (m.except m.parsed (p.runPartial rule fresh).1, (p.runPartial rule fresh).2) ∧
      p.run rule skipped = (m.except m.tree (p.run rule fresh).1, (p.run rule fresh).2) ∧
      (match p.parsePartial rule fresh with
        | .ok (tree, _) => (m.tree tree).leaves = tree.leaves.map m.slice ∧ (m.tree tree).contentEq tree = true
        | .error e => (m.error e).kind = e.kind ∧ (m.error e).message = e.message) ∧
      ∀ f : Failure, (m.failure f).offsets = f.offsets.map (· + m.offset) ∧
        (m.failure f).furthest = f.furthest + m.offset ∧ (m.failure f).message = f.message ∧
        (m.failure f).generation = f.generation := by
  intro m skipped fresh
  have behind : skipped = m.slice fresh := by
    refine (Placement.slice_whole _ _ _ ?_).symm
    exact String.toList_append
  rw [behind]
  refine ⟨p.runPartial_slice m rule fresh, p.run_slice m rule fresh, ?_, fun f => ?_⟩
  · split
    · exact ⟨m.leaves_tree _, m.contentEq_tree _⟩
    · next failed => exact ⟨m.kind_error _, message_error_parsePartial m failed⟩
  · exact ⟨m.offsets_failure f, m.furthest_failure f, m.message_failure f, m.generation_failure f⟩

end Parsers
end GrammarKit
