/-
Module: GrammarKit.Proofs.FailureOffsets
Purpose: Where failures happen.  Every offset in the tree of failures of an attempt lies within the input that
  the attempt was given: an operator reports a place that a part of it was given, and what a part is given is
  a rest of the input.
Main exports: Failure.offsets, Failure.Within, Failure.within_mk, Program.recognizer_failsInside
-/
import GrammarKit.Proofs.Derivation
import GrammarKit.Proofs.SourceParts

namespace GrammarKit
namespace Failure

/-! ### The offsets of a failure -/

mutual
/-- All offsets in a tree of failures. -/
def offsets : Failure → List Nat
  | mk _ _ offset _ children => offset :: offsetsAll children

/-- All offsets in several trees of failures. -/
def offsetsAll : List Failure → List Nat
  | [] => []
  | f :: fs => offsets f ++ offsetsAll fs
end

theorem mem_offsetsAll {fs : List Failure} {offset : Nat} :
    offset ∈ offsetsAll fs ↔ ∃ f ∈ fs, offset ∈ f.offsets := by
  induction fs with
  | nil => simp [offsetsAll]
  | cons f fs ih => simp [offsetsAll, ih]

mutual
/-- The furthest offset is one of the offsets. -/
theorem furthest_mem_offsets : ∀ f : Failure, f.furthest ∈ f.offsets
  | mk _ _ offset _ children => furthestOf_mem offset children

theorem furthestOf_mem (least : Nat) : ∀ fs : List Failure, furthestOf least fs ∈ least :: offsetsAll fs
  | [] => List.mem_singleton_self least
  | f :: fs => by
    rw [furthestOf, offsetsAll]
    rcases Nat.le_total (furthest f) (furthestOf least fs) with le | le
    · rw [Nat.max_eq_right le]
      rcases List.mem_cons.mp (furthestOf_mem least fs) with least | inside
      · exact List.mem_cons.mpr (.inl least)
      · exact List.mem_cons_of_mem _ (List.mem_append_right _ inside)
    · rw [Nat.max_eq_left le]
      exact List.mem_cons_of_mem _ (List.mem_append_left _ (furthest_mem_offsets f))
end

/-- Every offset of a failure lies within a slice; both ends are included. -/
def Within (s : Slice) (f : Failure) : Prop :=
  ∀ offset ∈ f.offsets, s.start ≤ offset ∧ offset ≤ s.stop

section Within

variable {s rest : Slice} {f : Failure} {fs : List Failure}

theorem within_mk {rule : String} {cause : Cause} {offset : Nat} {generation : Option Nat} :
    (mk rule cause offset generation fs).Within s
      ↔ (s.start ≤ offset ∧ offset ≤ s.stop) ∧ ∀ f ∈ fs, f.Within s := by
  simp only [Within, offsets, List.forall_mem_cons, mem_offsetsAll]
  refine and_congr_right fun _ => ⟨?_, ?_⟩
  · exact fun all f member offset inside => all offset ⟨f, member, inside⟩
  · exact fun all offset ⟨f, member, inside⟩ => all f member offset inside

@[simp] theorem within_retag (generation : Option Nat) : (f.retag generation).Within s ↔ f.Within s := by
  cases f with
  | mk rule cause offset _ children => rfl

theorem Within.furthest (h : f.Within s) : s.start ≤ f.furthest ∧ f.furthest ≤ s.stop :=
  h _ f.furthest_mem_offsets

/-- What fails within a rest of a slice fails within the slice. -/
theorem Within.of_follows (h : f.Within rest) (follows : rest.Follows s) : f.Within s := by
  intro offset inside
  obtain ⟨low, high⟩ := h offset inside
  exact ⟨Nat.le_trans follows.start_le low, follows.stop_eq ▸ high⟩

/-- A failure that is reported where some input starts. -/
theorem within_mk_start {rule : String} {cause : Cause} {generation : Option Nat} (inside : ∀ f ∈ fs, f.Within s) :
    (mk rule cause s.start generation fs).Within s :=
  within_mk.mpr ⟨⟨Nat.le_refl _, s.start_le_stop⟩, inside⟩

end Within
end Failure

namespace Recognizer

theorem furthest_bounds {s : Slice} {failures : List Failure} (inside : ∀ f ∈ failures, f.Within s) {least : Nat}
    (low : s.start ≤ least) (high : least ≤ s.stop) :
    s.start ≤ furthest least failures ∧ furthest least failures ≤ s.stop := by
  induction failures generalizing least with
  | nil => exact ⟨low, high⟩
  | cons f failures ih =>
    obtain ⟨-, reached⟩ := (inside f (List.mem_cons_self ..)).furthest
    exact ih (fun g member => inside g (List.mem_cons_of_mem _ member))
      (Nat.le_trans low (Nat.le_max_left _ _)) (Nat.max_le.mpr ⟨high, reached⟩)

theorem sequenceFailure_within {s : Slice} {f : Failure} (labelled : Bool) (rule : String) (index : Nat)
    (inside : f.Within s) : (sequenceFailure labelled rule index s.start f).Within s := by
  simp only [sequenceFailure]
  split
  · exact Failure.within_mk_start fun g member => List.mem_singleton.mp member ▸ inside
  · exact inside

theorem retag_within {s : Slice} {f : Failure} (handed : Prop) [Decidable handed] (outer : Option Nat)
    (inside : f.Within s) : (if handed then f.retag outer else f).Within s := by
  split
  · exact (Failure.within_retag outer).mpr inside
  · exact inside

/-! ### Where operators fail -/

/-- Every failure of a recognizer happens within the input it was given. -/
def FailsInside (run : Recognizer) : Prop :=
  ∀ {rule c s t f t'}, run rule c s t = (.failed f, t') → f.Within s

theorem terminal_failsInside (regex : Regex) (expected : String) : (terminal regex expected).FailsInside := by
  intro rule c s t f t' h
  simp only [terminal] at h
  split at h
  · cases h
  · simp only [Prod.mk.injEq, Outcome.failed.injEq] at h
    obtain ⟨rfl, -⟩ := h
    exact Failure.within_mk_start (List.forall_mem_nil _)

section Operators

variable {p : Program} {self : ParserId → Recognizer} (realizes : ∀ id, (self id).Realizes p id)
  (inside : ∀ id, (self id).FailsInside)

include realizes inside in
theorem sequenceFrom_within {labelled : Bool} {rule : String} {outer own : Option Nat} {items : List Item}
    {index : Nat} {crossed : Bool} {c : Context} {s : Slice} {t t' : Tally} {f : Failure}
    (h : sequenceFrom labelled rule outer own (items.map fun item => ⟨item.bind, item.cut, self item.parser⟩)
      index crossed c s t = (.failed f, t')) : f.Within s := by
  induction items generalizing index crossed c s t with
  | nil => cases h
  | cons item items ih =>
    simp only [List.map_cons, sequenceFrom] at h
    split at h
    · next found =>
      split at h
      · cases h
      · next others =>
        cases h
        exact (ih others).of_follows (realizes _ found).follows
      · cases h
    · next failed =>
      simp only [Prod.mk.injEq, Outcome.failed.injEq] at h
      obtain ⟨rfl, -⟩ := h
      exact sequenceFailure_within _ _ _ (retag_within _ _ (inside _ failed))
    · cases h

include realizes inside in
theorem sequence_failsInside (label : Option String) (items : List Item) :
    (sequence label (items.map fun item => ⟨item.bind, item.cut, self item.parser⟩)).FailsInside := by
  intro rule c s t f t' h
  simp only [sequence] at h
  split at h
  · cases h
  · next failed =>
    simp only [Prod.mk.injEq, Outcome.failed.injEq] at h
    obtain ⟨rfl, -⟩ := h
    exact sequenceFrom_within realizes inside failed
  · cases h

include inside in
theorem choiceFrom_within {tag rule : String} {e : Enclosed} {s : Slice} {alternatives : List ParserId} {index : Nat}
    {failures : List Failure} {t t' : Tally} {f : Failure} (before : ∀ f ∈ failures, f.Within s)
    (h : choiceFrom tag rule e s (alternatives.map self) index failures t = (.failed f, t')) : f.Within s := by
  induction alternatives generalizing index failures t with
  | nil =>
    simp only [List.map_nil, choiceFrom, Prod.mk.injEq, Outcome.failed.injEq] at h
    obtain ⟨rfl, -⟩ := h
    have before : ∀ f ∈ failures.reverse, f.Within s := fun f member => before f (List.mem_reverse.mp member)
    exact Failure.within_mk.mpr ⟨furthest_bounds before (Nat.le_refl _) s.start_le_stop, before⟩
  | cons alternative alternatives ih =>
    simp only [List.map_cons, choiceFrom] at h
    split at h
    · cases h
    · next failed =>
      split at h
      · simp only [Prod.mk.injEq, Outcome.failed.injEq] at h
        obtain ⟨rfl, -⟩ := h
        exact inside _ failed
      · exact ih (List.forall_mem_cons.mpr ⟨inside _ failed, before⟩) h
    · cases h

include inside in
theorem choice_failsInside (label : Option String) (alternatives : List ParserId) :
    (choice label (alternatives.map self)).FailsInside := by
  intro rule c s t f t' h
  exact choiceFrom_within inside (List.forall_mem_nil _) h

include realizes inside in
/-- The failure that ends a repetition happens in what the repetition leaves. -/
theorem repeatFrom_within {term : ParserId} {rule : String} {e : Enclosed} {min max fuel : Nat} {trees : Array Tree}
    {s : Slice} {t : Tally} :
    (∀ {f t'}, repeatFrom (self term) rule e min max fuel trees s t = (.failed f, t') → f.Within s) ∧
      ∀ {result rest last t'},
        repeatFrom (self term) rule e min max fuel trees s t = (.matched (result, rest, last), t') →
          rest.Follows s ∧ ∀ f ∈ last, f.Within rest := by
  induction fuel generalizing trees s t with
  | zero =>
    constructor
    · intro f t' h
      cases h
    · intro result rest last t' h
      cases h
  | succ fuel ih =>
    rw [repeatFrom]
    split
    · constructor
      · rintro f t' ⟨⟩
      · rintro result rest last t' ⟨⟩
        exact ⟨.refl _, fun f member => absurd member (Option.not_mem_none f)⟩
    · split
      · next found =>
        have follows := (realizes _ found).follows
        split
        · constructor
          · rintro f t' ⟨⟩
          · rintro result rest last t' ⟨⟩
            exact ⟨follows, fun f member => absurd member (Option.not_mem_none f)⟩
        · refine ⟨fun h => (ih.1 h).of_follows follows, fun h => ?_⟩
          obtain ⟨further, last⟩ := ih.2 h
          exact ⟨further.trans follows, last⟩
      · next failed =>
        split
        · constructor
          · rintro f t' ⟨⟩
            exact inside _ failed
          · rintro result rest last t' ⟨⟩
        · constructor
          · rintro f t' ⟨⟩
          · rintro result rest last t' ⟨⟩
            refine ⟨.refl _, fun f member => ?_⟩
            cases member
            exact inside _ failed
      · constructor
        · intro f t' h
          cases h
        · intro result rest last t' h
          cases h

include realizes inside in
theorem repetition_failsInside (label : Option String) (term : ParserId) (min max : Nat) :
    (repetition label (self term) min max).FailsInside := by
  intro rule c s t f t' h
  simp only [repetition] at h
  split at h
  · next found =>
    obtain ⟨follows, last⟩ := (repeatFrom_within realizes inside).2 found
    split at h
    · cases h
    · simp only [Prod.mk.injEq, Outcome.failed.injEq] at h
      obtain ⟨rfl, -⟩ := h
      refine (Failure.within_mk_start fun f member => ?_).of_follows follows
      exact last f (Option.mem_toList.mp member)
  · next failed =>
    simp only [Prod.mk.injEq, Outcome.failed.injEq] at h
    obtain ⟨rfl, -⟩ := h
    exact (repeatFrom_within realizes inside).1 failed
  · cases h

section Lists

variable {element separator : ParserId} {style : ListStyle} {cutSeparator : Bool} {rule : String} {e : Enclosed}

include realizes inside in
theorem pair_within {mayElide : Bool} {s : Slice} {t t' : Tally} {f : Failure}
    (h : pair ⟨self element, self separator, style, cutSeparator⟩ rule e mayElide s t = (.failed f, t')) :
    f.Within s := by
  simp only [pair] at h
  generalize (if cutSeparator then e.context.enclose true t else (⟨e.context, e.own, e.own⟩, t)) = inner at h
  split at h
  · next first =>
    split at h
    · cases h
    · next second =>
      have here := (inside _ second).of_follows (realizes _ first).follows
      split at h
      · split at h
        · cases h
        · cases h
          exact here
      · split at h
        · cases h
          exact here
        · split at h <;> cases h
    · cases h
  · next first _ failed =>
    have handed := retag_within (first.generation == inner.1.own) inner.1.outer (inside _ failed)
    generalize (if first.generation == inner.1.own then first.retag inner.1.outer else first) = g at h handed
    split at h
    · cases h
      exact handed
    · cases h
  · cases h

include realizes inside in
theorem listHead_within {s : Slice} {t t' : Tally} {f : Failure}
    (h : listHead ⟨self element, self separator, style, cutSeparator⟩ rule e s t = (.failed f, t')) :
    f.Within s := by
  simp only [listHead] at h
  split at h
  · cases h
  · next first _ failed =>
    have here := inside _ failed
    have empty : (Failure.mk rule .emptyList s.start e.outer [first]).Within s :=
      Failure.within_mk_start fun g member => List.mem_singleton.mp member ▸ here
    split at h
    · cases h
      exact here
    · split at h
      · cases h
        exact empty
      · split at h
        · cases h
        · cases h
          exact empty
        · next second =>
          cases h
          exact pair_within realizes inside second
        · cases h
  · cases h

include realizes inside in
theorem listTail_within {fuel : Nat} {slots : Array Tree} {s : Slice} {t t' : Tally} {f : Failure}
    (h : listTail ⟨self element, self separator, style, cutSeparator⟩ rule e fuel slots s t = (.failed f, t')) :
    f.Within s := by
  induction fuel generalizing slots s t with
  | zero => cases h
  | succ fuel ih =>
    simp only [listTail] at h
    split at h
    · cases h
    · next found _ here =>
      obtain ⟨next, d, last⟩ := pair_derives realizes here
      have follows : found.rest.Follows s := by
        obtain ⟨_, _, d'⟩ | ⟨-, -, same⟩ := last
        · exact d'.follows.trans d.follows
        · exact same ▸ d.follows
      split at h
      · cases h
      · exact (ih h).of_follows follows
    · next failed =>
      cases h
      exact pair_within realizes inside failed
    · cases h

include realizes inside in
theorem list_failsInside (label : Option String) :
    (list label ⟨self element, self separator, style, cutSeparator⟩).FailsInside := by
  intro rule c s t f t' h
  simp only [list] at h
  split at h
  · next head =>
    obtain ⟨leading, -, ds⟩ := listHead_derives realizes head
    split at h
    · cases h
    · next failed =>
      cases h
      exact (listTail_within realizes inside failed).of_follows ds.follows
    · cases h
  · next failed =>
    cases h
    exact listHead_within realizes inside failed
  · cases h

end Lists

include inside in
theorem backref_failsInside (name : String) (default : Option ParserId) :
    (backref name (default.map self)).FailsInside := by
  intro rule c s t f t' h
  simp only [backref] at h
  split at h
  · split at h
    · cases h
    · cases h
      exact Failure.within_mk_start (List.forall_mem_nil _)
  · cases default with
    | none =>
      cases h
      exact Failure.within_mk_start (List.forall_mem_nil _)
    | some id =>
      simp only [Option.map_some] at h
      split at h
      · cases h
      · next failed =>
        cases h
        exact inside _ failed
      · cases h

include realizes inside in
theorem operator_failsInside (label : Option String) (operator : Operator) :
    (operator.recognizer self label).FailsInside := by
  cases operator with
  | pending name =>
    intro rule c s t f t' h
    cases h
    exact Failure.within_mk_start (List.forall_mem_nil _)
  | terminal terminal => exact terminal_failsInside _ _
  | call target => exact inside target
  | cut inner => exact inside inner
  | seq items => exact sequence_failsInside realizes inside label items
  | choice alternatives => exact choice_failsInside inside label alternatives
  | list element separator style cutSeparator => exact list_failsInside realizes inside label
  | quant term min max => exact repetition_failsInside realizes inside label term min max
  | backref name default =>
    intro rule c s t f t' h
    have h : backref name (default.map self) rule c s t = (.failed f, t') := h
    exact backref_failsInside inside name default h

end Operators
end Recognizer

/-- Every offset that a program reports in a failure lies within the input, in whatever context and to whatever
depth it runs. -/
theorem Program.recognizer_failsInside (p : Program) (fuel : Nat) (id : ParserId) :
    (p.recognizer fuel id).FailsInside := by
  induction fuel generalizing id with
  | zero => exact nofun
  | succ fuel ih =>
    intro rule c s t f t' h
    simp only [recognizer] at h
    split at h
    · cases h
    · exact Recognizer.operator_failsInside (p.recognizer_derives fuel) ih _ _ h

end GrammarKit
