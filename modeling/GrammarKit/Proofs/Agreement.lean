/-
Module: GrammarKit.Proofs.Agreement
Purpose: Where an operator runs its parts.  At the place where it begins it runs only its heads, and the other
  parts only after input has been taken; its loops end.  So if the parts do the same in two settings, each
  where it may be run, then so does the operator, and it comes to an end.
Main exports: Settled, Recognizer.Agree, Recognizer.operator_settled
-/
import GrammarKit.Proofs.Heads
import GrammarKit.Proofs.Nullability

namespace GrammarKit

/-! ### Agreement -/

/-- Two attempts end alike, and do end. -/
def Settled {α : Type} (ended ended' : Outcome α × Tally) : Prop :=
  ended = ended' ∧ ended.1 ≠ .exhausted

theorem Settled.matched {α : Type} (value : α) (t : Tally) : Settled (.matched value, t) (.matched value, t) :=
  ⟨rfl, nofun⟩

theorem Settled.failed {α : Type} (f : Failure) (t : Tally) :
    Settled (Outcome.failed (α := α) f, t) (.failed f, t) :=
  ⟨rfl, nofun⟩

theorem Settled.ne_exhausted {α : Type} {ended ended' : Outcome α × Tally} (h : Settled ended ended') (t : Tally) :
    ended' ≠ (.exhausted, t) :=
  fun exhausted => h.2 (congrArg Prod.fst (h.1.trans exhausted))

namespace Recognizer

/-- Two recognizers do the same with a slice and come to an end. -/
def Agree (run run' : Recognizer) (s : Slice) : Prop :=
  ∀ rule c t, Settled (run rule c s t) (run' rule c s t)

/-- Two recognizers agree on a slice and on all that is left of it. -/
def AgreeFrom (run run' : Recognizer) (s : Slice) : Prop :=
  ∀ ⦃rest : Slice⦄, rest.Follows s → Agree run run' rest

/-- Two recognizers agree where some of a slice has been taken. -/
def AgreeAfter (run run' : Recognizer) (s : Slice) : Prop :=
  ∀ ⦃rest : Slice⦄, rest.Follows s → rest ≠ s → Agree run run' rest

section Agreement

variable {run run' : Recognizer} {s rest : Slice}

theorem AgreeFrom.here (h : AgreeFrom run run' s) : Agree run run' s :=
  h (.refl s)

theorem AgreeFrom.onward (h : AgreeFrom run run' s) (follows : rest.Follows s) : AgreeFrom run run' rest :=
  fun _ later => h (later.trans follows)

theorem AgreeAfter.onward (h : AgreeAfter run run' s) (follows : rest.Follows s) (moved : rest ≠ s) :
    AgreeFrom run run' rest := by
  intro last later
  refine h (later.trans follows) fun same => moved ?_
  exact (follows.eq_both later same).1

theorem AgreeAfter.with_here (h : AgreeAfter run run' s) (here : Agree run run' s) : AgreeFrom run run' s := by
  intro rest later
  by_cases same : rest = s
  · exact same ▸ here
  · exact h later same

end Agreement

/-! ### Operators -/

/-- The items of a sequence with what their parsers do. -/
def steps (self : ParserId → Recognizer) (items : List Item) : List Step :=
  items.map fun item => ⟨item.bind, item.cut, self item.parser⟩

section Operators

variable {p : Program} {self self' : ParserId → Recognizer} {s : Slice} {rule : String} {e : Enclosed}

/-- Items agree if those do that may be reached before any input is taken, and the others later. -/
theorem sequenceFrom_settled (progress : p.Progress) (realizes : ∀ id, (self' id).Realizes p id)
    {labelled : Bool} {outer own : Option Nat} {items : List Item}
    (here : ∀ part ∈ Program.reachableItems p.nullability items, Agree (self part) (self' part) s)
    (later : ∀ item ∈ items, AgreeAfter (self item.parser) (self' item.parser) s)
    (index : Nat) (crossed : Bool) (c : Context) (t : Tally) :
    Settled (sequenceFrom labelled rule outer own (steps self items) index crossed c s t)
      (sequenceFrom labelled rule outer own (steps self' items) index crossed c s t) := by
  induction items generalizing s index crossed c t with
  | nil => exact .matched _ _
  | cons item items ih =>
    have first := here item.parser List.mem_cons_self rule c t
    simp only [steps, List.map_cons, sequenceFrom, first.1, Step.after]
    split
    · next tree next t' found =>
      have d := realizes _ found
      have others : ∀ c, Settled
          (sequenceFrom labelled rule outer own (steps self items) (index + 1) (crossed || item.cut) c next t')
          (sequenceFrom labelled rule outer own (steps self' items) (index + 1) (crossed || item.cut) c next
            t') := by
        intro c
        by_cases moved : next = s
        · have marked := d.isMarked progress moved
          rw [moved]
          refine ih (fun part member => here part ?_) (fun item member => later item (.tail _ member)) _ _ _ _
          rw [Program.reachableItems, if_pos marked]
          exact .tail _ member
        · have after : ∀ item ∈ items, AgreeFrom (self item.parser) (self' item.parser) next :=
            fun item member => (later item (.tail _ member)).onward d.follows moved
          refine ih (fun part member => ?_) (fun item member _ follows _ => after item member follows) _ _ _ _
          obtain ⟨item, inside, rfl⟩ := List.mem_map.mp (Program.reachableItems_subset _ _ member)
          exact (after item inside).here
      simp only [steps] at others
      rw [(others _).1]
      split
      · exact .matched _ _
      · exact .failed _ _
      · next exhausted => exact absurd exhausted ((others _).ne_exhausted _)
    · exact .failed _ _
    · next exhausted => exact absurd exhausted (first.ne_exhausted _)

/-- Alternatives agree if all do at the place where they are tried. -/
theorem choiceFrom_settled {alternatives : List ParserId}
    (here : ∀ part ∈ alternatives, Agree (self part) (self' part) s) {tag : String} (index : Nat)
    (failures : List Failure) (t : Tally) :
    Settled (choiceFrom tag rule e s (alternatives.map self) index failures t)
      (choiceFrom tag rule e s (alternatives.map self') index failures t) := by
  induction alternatives generalizing index failures t with
  | nil => exact .failed _ _
  | cons alternative alternatives ih =>
    have first := here alternative List.mem_cons_self rule e.context t
    simp only [List.map_cons, choiceFrom, first.1]
    split
    · exact .matched _ _
    · split
      · exact .failed _ _
      · exact ih (fun part member => here part (.tail _ member)) _ _ _
    · next exhausted => exact absurd exhausted (first.ne_exhausted _)

/-- Repetitions of a term end: each match but the last takes some of the input. -/
theorem repeatFrom_settled (realizes : ∀ id, (self' id).Realizes p id) {term : ParserId}
    (agree : AgreeFrom (self term) (self' term) s) {min max fuel : Nat} (enough : s.chars.length < fuel)
    (trees : Array Tree) (t : Tally) :
    Settled (repeatFrom (self term) rule e min max fuel trees s t)
      (repeatFrom (self' term) rule e min max fuel trees s t) := by
  induction fuel generalizing s trees t with
  | zero => exact absurd enough (Nat.not_lt_zero _)
  | succ fuel ih =>
    have first := agree.here rule e.context t
    rw [repeatFrom, repeatFrom, first.1]
    split
    · exact .matched _ _
    · split
      · next found =>
        split
        · exact .matched _ _
        · next moved =>
          have follows := (realizes _ found).follows
          have shorter := follows.length_lt moved
          exact ih (agree.onward follows) (by omega) _ _
      · split
        · exact .failed _ _
        · exact .matched _ _
      · next exhausted => exact absurd exhausted (first.ne_exhausted _)

/-- Pairs agree if their parts do from where the pair begins. -/
theorem pair_settled (realizes : ∀ id, (self' id).Realizes p id) {element separator : ParserId}
    (agree : AgreeFrom (self element) (self' element) s)
    (agree' : AgreeFrom (self separator) (self' separator) s) {style : ListStyle} {cutSeparator : Bool}
    (mayElide : Bool) (t : Tally) :
    Settled (pair ⟨self element, self separator, style, cutSeparator⟩ rule e mayElide s t)
      (pair ⟨self' element, self' separator, style, cutSeparator⟩ rule e mayElide s t) := by
  simp only [pair]
  generalize (if cutSeparator then e.context.enclose true t else (⟨e.context, e.own, e.own⟩, t)) = inner
  obtain ⟨inner, t⟩ := inner
  have first := agree'.here rule inner.context t
  simp only [first.1]
  split
  · next next t' found =>
    have follows := (realizes _ found).follows
    have second := agree follows rule inner.context t'
    simp only [second.1]
    split
    · exact .matched _ _
    · split
      · split
        · exact .matched _ _
        · exact .failed _ _
      · split
        · exact .failed _ _
        · split
          · exact .matched _ _
          · exact .matched _ _
    · next exhausted => exact absurd exhausted (second.ne_exhausted _)
  · next f _ _ =>
    generalize (if f.generation == inner.own then f.retag inner.outer else f) = handed
    split
    · exact .failed _ _
    · exact .matched _ _
  · next exhausted => exact absurd exhausted (first.ne_exhausted _)

theorem pair_follows (realizes : ∀ id, (self' id).Realizes p id) {element separator : ParserId}
    {style : ListStyle} {cutSeparator mayElide : Bool} {t t' : Tally} {found : Pair}
    (h : pair ⟨self' element, self' separator, style, cutSeparator⟩ rule e mayElide s t
      = (.matched (some found), t')) : found.rest.Follows s := by
  obtain ⟨next, d, ⟨tree, -, d'⟩ | ⟨-, -, same⟩⟩ := pair_derives realizes h
  · exact d'.follows.trans d.follows
  · exact same ▸ d.follows

/-- The first slots of a list agree if its element does where the list begins and both parts do later; the
separator must agree there too if the list may begin with it. -/
theorem listHead_settled (realizes : ∀ id, (self' id).Realizes p id) {element separator : ParserId}
    (agree : AgreeFrom (self element) (self' element) s) {style : ListStyle} {cutSeparator : Bool}
    (agree' : style.leading = true → AgreeFrom (self separator) (self' separator) s) (t : Tally) :
    Settled (listHead ⟨self element, self separator, style, cutSeparator⟩ rule e s t)
      (listHead ⟨self' element, self' separator, style, cutSeparator⟩ rule e s t) := by
  have first := agree.here rule e.context t
  simp only [listHead, first.1]
  split
  · exact .matched _ _
  · split
    · exact .failed _ _
    · split
      · exact .failed _ _
      · next t' _ _ leading =>
        have leading : style.leading = true := by simpa using leading
        have pairs : ∀ t, Settled
            (pair ⟨self element, self separator, style, cutSeparator⟩ rule e false s t)
            (pair ⟨self' element, self' separator, style, cutSeparator⟩ rule e false s t) :=
          pair_settled realizes agree (agree' leading) false
        rw [(pairs _).1]
        split
        · exact .matched _ _
        · exact .failed _ _
        · exact .failed _ _
        · next exhausted => exact absurd exhausted ((pairs _).ne_exhausted _)
  · next exhausted => exact absurd exhausted (first.ne_exhausted _)

/-- The further slots of a list come to an end: each pair but the last takes some of the input. -/
theorem listTail_settled (realizes : ∀ id, (self' id).Realizes p id) {element separator : ParserId}
    (agree : AgreeFrom (self element) (self' element) s)
    (agree' : AgreeFrom (self separator) (self' separator) s) {style : ListStyle} {cutSeparator : Bool}
    {fuel : Nat} (enough : s.chars.length < fuel) (slots : Array Tree) (t : Tally) :
    Settled (listTail ⟨self element, self separator, style, cutSeparator⟩ rule e fuel slots s t)
      (listTail ⟨self' element, self' separator, style, cutSeparator⟩ rule e fuel slots s t) := by
  induction fuel generalizing s slots t with
  | zero => exact absurd enough (Nat.not_lt_zero _)
  | succ fuel ih =>
    have first : Settled
        (pair ⟨self element, self separator, style, cutSeparator⟩ rule e style.trailing s t)
        (pair ⟨self' element, self' separator, style, cutSeparator⟩ rule e style.trailing s t) :=
      pair_settled realizes agree agree' style.trailing t
    simp only [listTail, first.1]
    split
    · exact .matched _ _
    · next found t' here =>
      split
      · exact .matched _ _
      · next goesOn =>
        have follows := pair_follows realizes here
        have moved : found.rest.start ≠ s.start := by simp_all
        have shorter := follows.length_lt moved
        exact ih (agree.onward follows) (agree'.onward follows) (by omega) _ _
    · exact .failed _ _
    · next exhausted => exact absurd exhausted (first.ne_exhausted _)

/-- Sequences agree if their items do. -/
theorem sequence_settled (progress : p.Progress) (realizes : ∀ id, (self' id).Realizes p id) {items : List Item}
    (here : ∀ part ∈ Program.reachableItems p.nullability items, Agree (self part) (self' part) s)
    (later : ∀ item ∈ items, AgreeAfter (self item.parser) (self' item.parser) s) (label : Option String) :
    Agree (sequence label (steps self items)) (sequence label (steps self' items)) s := by
  intro rule c t
  have force : (steps self items).any Step.cut = (steps self' items).any Step.cut := by
    simp [steps, Function.comp_def]
  simp only [sequence, force]
  generalize c.enclose ((steps self' items).any Step.cut) t = inner
  obtain ⟨e, t⟩ := inner
  have all : Settled (sequenceFrom label.isSome rule e.outer e.own (steps self items) 0 false e.context s t)
      (sequenceFrom label.isSome rule e.outer e.own (steps self' items) 0 false e.context s t) :=
    sequenceFrom_settled progress realizes here later _ _ _ _
  dsimp only
  rw [all.1]
  split
  · exact .matched _ _
  · exact .failed _ _
  · next exhausted => exact absurd exhausted (all.ne_exhausted _)

/-- Lists agree if the element does where the list begins, both parts do later, and the separator does at the
beginning too where the list may begin with it or with an element that takes nothing. -/
theorem list_settled (progress : p.Progress) (realizes : ∀ id, (self' id).Realizes p id)
    {element separator : ParserId} {style : ListStyle}
    (agree : AgreeFrom (self element) (self' element) s)
    (early : style.leading = true ∨ Program.isMarked p.nullability element = true →
      Agree (self separator) (self' separator) s)
    (later : AgreeAfter (self separator) (self' separator) s) (label : Option String) (cutSeparator : Bool) :
    Agree (list label ⟨self element, self separator, style, cutSeparator⟩)
      (list label ⟨self' element, self' separator, style, cutSeparator⟩) s := by
  intro rule c t
  simp only [list]
  generalize c.enclose false t = inner
  obtain ⟨e, t⟩ := inner
  have head : Settled (listHead ⟨self element, self separator, style, cutSeparator⟩ rule e s t)
      (listHead ⟨self' element, self' separator, style, cutSeparator⟩ rule e s t) :=
    listHead_settled realizes agree (fun leading => later.with_here (early (.inl leading))) t
  dsimp only
  rw [head.1]
  split
  · next slots rest t' found =>
    obtain ⟨leading, -, ds⟩ := listHead_derives realizes found
    have separators : AgreeFrom (self separator) (self' separator) rest := by
      by_cases moved : rest = s
      · have room : leading.toNat + false.toNat ≤ leading.toNat := Nat.le_refl _
        have marked := ds.isMarked progress moved _ (mem_slotPattern room)
        exact moved ▸ later.with_here (early (.inr marked))
      · exact later.onward ds.follows moved
    have enough : rest.chars.length < s.chars.length + 2 := by
      have := ds.follows.length_le
      omega
    have tail : Settled
        (listTail ⟨self element, self separator, style, cutSeparator⟩ rule e (s.chars.length + 2) slots.toArray
          rest t')
        (listTail ⟨self' element, self' separator, style, cutSeparator⟩ rule e (s.chars.length + 2)
          slots.toArray rest t') :=
      listTail_settled realizes (agree.onward ds.follows) separators enough _ _
    rw [tail.1]
    split
    · exact .matched _ _
    · exact .failed _ _
    · next exhausted => exact absurd exhausted (tail.ne_exhausted _)
  · exact .failed _ _
  · next exhausted => exact absurd exhausted (head.ne_exhausted _)

/-- Operators agree if the parsers do that they may run before any input is taken, and the others later. -/
theorem operator_settled (progress : p.Progress) (realizes : ∀ id, (self' id).Realizes p id)
    {operator : Operator} (heads : ∀ part ∈ operator.heads p.nullability, Agree (self part) (self' part) s)
    (later : ∀ part ∈ operator.parts, AgreeAfter (self part) (self' part) s) (label : Option String) :
    Agree (operator.recognizer self label) (operator.recognizer self' label) s := by
  cases operator with
  | pending name => exact fun rule c t => .failed _ _
  | terminal terminal =>
    intro rule c t
    simp only [Operator.recognizer, Recognizer.terminal]
    split
    · exact .matched _ _
    · exact .failed _ _
  | call target => exact heads target List.mem_cons_self
  | cut inner => exact heads inner List.mem_cons_self
  | seq items =>
    have here : ∀ part ∈ Program.reachableItems p.nullability items, Agree (self part) (self' part) s :=
      fun part member => heads part (List.mem_append_left _ member)
    exact sequence_settled progress realizes here
      (fun item member => later item.parser (List.mem_map_of_mem member)) label
  | choice alternatives =>
    intro rule c t
    simp only [Operator.recognizer, choice]
    have here : ∀ part ∈ alternatives, Agree (self part) (self' part) s :=
      fun part member => heads part (List.mem_append_left _ member)
    exact choiceFrom_settled here _ _ _
  | list element separator style cutSeparator =>
    have inFront : element ∈ (Operator.list element separator style cutSeparator).startHeads p.nullability := by
      simp only [Operator.startHeads]
      split <;> exact List.mem_cons_self
    have behind : style.leading = true ∨ Program.isMarked p.nullability element = true →
        separator ∈ (Operator.list element separator style cutSeparator).heads p.nullability := by
      intro start
      simp only [Operator.heads, Operator.startHeads, Operator.hiddenHeads]
      cases leading : style.leading with
      | true => simp
      | false =>
        rw [leading] at start
        simp [start.resolve_left Bool.false_ne_true]
    have here := heads element (List.mem_append_left _ inFront)
    exact list_settled progress realizes ((later element List.mem_cons_self).with_here here)
      (fun start => heads separator (behind start)) (later separator (.tail _ List.mem_cons_self)) label _
  | quant term min max =>
    intro rule c t
    simp only [Operator.recognizer, repetition]
    generalize c.enclose false t = inner
    obtain ⟨e, t⟩ := inner
    have agree : AgreeFrom (self term) (self' term) s :=
      (later term List.mem_cons_self).with_here (heads term List.mem_cons_self)
    have enough : s.chars.length < s.chars.length + 2 := by omega
    have loop : Settled (repeatFrom (self term) rule e min max (s.chars.length + 2) #[] s t)
        (repeatFrom (self' term) rule e min max (s.chars.length + 2) #[] s t) :=
      repeatFrom_settled realizes agree enough _ _
    dsimp only
    rw [loop.1]
    split
    · split
      · exact .matched _ _
      · exact .failed _ _
    · exact .failed _ _
    · next exhausted => exact absurd exhausted (loop.ne_exhausted _)
  | backref name default =>
    intro rule c t
    simp only [Operator.recognizer, backref]
    split
    · split
      · exact .matched _ _
      · exact .failed _ _
    · cases default with
      | none => exact .failed _ _
      | some inner =>
        have first := heads inner List.mem_cons_self name c t
        simp only [Option.map_some, first.1]
        split
        · exact .matched _ _
        · exact .failed _ _
        · next exhausted => exact absurd exhausted (first.ne_exhausted _)

end Operators
end Recognizer
end GrammarKit
