/-
Module: GrammarKit.Proofs.GroupSpan
Purpose: The one group of a terminal spans its match.  The states of a pattern without groups lead to each
  other and to the state after the pattern only, so a run records the start of the group around it when it
  begins and the end of the group when it accepts.
Main exports: Pattern.groupCount, Pattern.Bare, Machine.build_extends, Regex.output_of_bare
-/
import GrammarKit.Proofs.MatchInvariant

namespace GrammarKit.Regex

/-- The number of groups of a pattern. -/
def Pattern.groupCount : Pattern → Nat
  | .group _ p => p.groupCount + 1
  | .seq p q => p.groupCount + q.groupCount
  | .alt p q => p.groupCount + q.groupCount
  | .repetition p _ _ _ => p.groupCount
  | _ => 0

/-- The pattern of a terminal that has no groups of its own: it is matched at the start of the text, and
one group is around it. -/
def Pattern.Bare (p : Pattern) : Prop :=
  ∃ inner : Pattern, inner.groupCount = 0 ∧ p = .seq (.assertion .textStart) (.group 1 inner)

/-- Whether a pattern is that of a terminal without groups of its own. -/
def Pattern.isBare : Pattern → Bool
  | .seq (.assertion .textStart) (.group 1 inner) => inner.groupCount == 0
  | _ => false

theorem Pattern.isBare_iff {p : Pattern} : p.isBare = true ↔ p.Bare := by
  constructor
  · intro h
    unfold isBare at h
    split at h
    · exact ⟨_, eq_of_beq h, rfl⟩
    · cases h
  · rintro ⟨inner, free, rfl⟩
    rw [isBare, free]
    rfl

instance (p : Pattern) : Decidable p.Bare :=
  decidable_of_iff _ Pattern.isBare_iff

namespace Machine

/-! ### States of a part -/

/-- A state of a part whose states are numbered from `low` up to `high`: it records nothing, and leads to
the part itself or to the state after it. -/
def Inside (low high next : Nat) : State → Prop
  | .take _ target => target = next ∨ (low ≤ target ∧ target < high)
  | .split preferred other =>
      (preferred = next ∨ (low ≤ preferred ∧ preferred < high)) ∧
        (other = next ∨ (low ≤ other ∧ other < high))
  | .require _ target => target = next ∨ (low ≤ target ∧ target < high)
  | .record _ _ => False
  | .accept => False

/-- States have been added for a part that goes on as the fragment before does. -/
structure Extends (before after : Fragment) : Prop where
  size : before.1.size ≤ after.1.size
  old : ∀ i < before.1.size, after.1[i]? = before.1[i]?
  entry : after.2 = before.2 ∨ (before.1.size ≤ after.2 ∧ after.2 < after.1.size)
  new : ∀ {i state}, before.1.size ≤ i → after.1[i]? = some state →
    Inside before.1.size after.1.size before.2 state

theorem Inside.wider {low low' high high' next next' : Nat} {state : State}
    (h : Inside low' high next' state) (lower : low ≤ low') (higher : high ≤ high')
    (same : next' = next ∨ (low ≤ next' ∧ next' < high')) : Inside low high' next state := by
  cases state with
  | take _ target | require _ target => simp only [Inside] at h ⊢; omega
  | split preferred other => simp only [Inside] at h ⊢; omega
  | record _ _ => exact h
  | accept => exact h

namespace Extends

variable {before between after : Fragment}

theorem refl (f : Fragment) : Extends f f := by
  refine ⟨Nat.le_refl _, fun _ _ => rfl, .inl rfl, fun {i _} above found => ?_⟩
  have := (Array.getElem?_eq_some_iff.mp found).1
  omega

theorem trans (h : Extends before between) (h' : Extends between after) : Extends before after := by
  have entry := h.entry
  have entry' := h'.entry
  have size := h.size
  have size' := h'.size
  refine ⟨Nat.le_trans size size', fun i below => ?_, ?_, fun {i state} above found => ?_⟩
  · rw [h'.old i (Nat.lt_of_lt_of_le below size), h.old i below]
  · omega
  · by_cases later : between.1.size ≤ i
    · exact (h'.new later found).wider size (Nat.le_refl _) (by omega)
    · rw [h'.old i (Nat.lt_of_not_le later)] at found
      exact (h.new above found).wider (Nat.le_refl _) size' (.inl rfl)

/-- A part may be entered in any of its states, or not at all. -/
theorem enterAt (h : Extends before after) {entry : Nat}
    (inside : entry = before.2 ∨ (before.1.size ≤ entry ∧ entry < after.1.size)) :
    Extends before (after.1, entry) :=
  ⟨h.size, h.old, inside, h.new⟩

/-- One more state, which leads to the part or to the state after it. -/
theorem push (h : Extends before after) {state : State}
    (inside : Inside before.1.size after.1.size before.2 state) : Extends before (emit after.1 state) := by
  have size := h.size
  refine ⟨?_, fun i below => ?_, .inr ⟨size, ?_⟩, fun {i state'} above found => ?_⟩
  · simp only [emit, Array.size_push]
    omega
  · rw [emit, Array.getElem?_push_lt (Nat.lt_of_lt_of_le below size), h.old i below |>.symm]
    simp
  · simp [emit]
  · simp only [emit, Array.size_push] at found ⊢
    rw [Array.getElem?_push] at found
    split at found
    · obtain rfl := Option.some.inj found
      exact inside.wider (Nat.le_refl _) (Nat.le_succ _) (.inl rfl)
    · exact (h.new above found).wider (Nat.le_refl _) (Nat.le_succ _) (.inl rfl)

/-- A state of the part replaced by another one. -/
theorem set (h : Extends before after) {i : Nat} {state : State} (part : before.1.size ≤ i)
    (inside : Inside before.1.size after.1.size before.2 state) :
    Extends before (after.1.setIfInBounds i state, after.2) := by
  refine ⟨?_, fun j below => ?_, ?_, fun {j state'} above found => ?_⟩
  · rw [Array.size_setIfInBounds]
    exact h.size
  · rw [Array.getElem?_setIfInBounds_ne (by omega), h.old j below]
  · rw [Array.size_setIfInBounds]
    exact h.entry
  · simp only [Array.size_setIfInBounds]
    rw [Array.getElem?_setIfInBounds] at found
    split at found
    · split at found
      · obtain rfl := Option.some.inj found
        exact inside
      · cases found
    · exact h.new above found

end Extends

/-! ### Building a part -/

section Build

variable {f g : Fragment} {step : Fragment → Fragment}

theorem inside_choice {low high next round leave : Nat} (greedy : Bool)
    (first : round = next ∨ (low ≤ round ∧ round < high))
    (second : leave = next ∨ (low ≤ leave ∧ leave < high)) :
    Inside low high next (choice greedy round leave) := by
  cases greedy with
  | false => exact ⟨second, first⟩
  | true => exact ⟨first, second⟩

theorem chain_extends (keeps : ∀ g, Extends f g → Extends f (step g)) (h : Extends f g) (n : Nat) :
    Extends f (chain step n g) := by
  induction n generalizing g with
  | zero => exact h
  | succ n ih => exact ih (keeps g h)

theorem loop_extends (adds : ∀ g, Extends g (step g)) (greedy : Bool) (f : Fragment) :
    Extends f (loop step greedy f).1 ∧ f.1.size ≤ (loop step greedy f).2 ∧
      (loop step greedy f).2 < (loop step greedy f).1.1.size := by
  have opened : Extends f (emit f.1 (.split f.2 f.2)) := (Extends.refl f).push ⟨.inl rfl, .inl rfl⟩
  have inner := adds (emit f.1 (.split f.2 f.2))
  have whole := opened.trans inner
  have size := inner.size
  refine ⟨whole.set (Nat.le_refl _) (inside_choice greedy whole.entry (.inl rfl)), Nat.le_refl _, ?_⟩
  simp only [emit, Array.size_push] at size
  simp only [loop, Array.size_setIfInBounds]
  exact size

theorem literal_extends (text : List Char) (f : Fragment) :
    Extends f (text.foldr (fun c (states, next) => emit states (.take (.single c.toNat) next)) f) := by
  induction text with
  | nil => exact .refl f
  | cons c text ih => exact ih.push ih.entry

/-- The states of a pattern without groups. -/
theorem build_extends : ∀ (p : Pattern) (f : Fragment), p.groupCount = 0 → Extends f (build p f)
  | .empty, f, _ => .refl f
  | .literal text, f, _ => literal_extends text f
  | .set _, f, _ => (Extends.refl f).push (.inl rfl)
  | .assertion _, f, _ => (Extends.refl f).push (.inl rfl)
  | .seq p q, f, free => by
    obtain ⟨first, second⟩ := Nat.add_eq_zero_iff.mp free
    exact (build_extends q f second).trans (build_extends p _ first)
  | .alt p q, (states, next), free => by
    obtain ⟨first, second⟩ := Nat.add_eq_zero_iff.mp free
    have one := build_extends p (states, next) first
    have two := build_extends q ((build p (states, next)).1, next) second
    have both := (one.enterAt (.inl rfl)).trans two
    have size : (build p (states, next)).1.size ≤ _ := two.size
    have entry := one.entry
    exact both.push ⟨by omega, both.entry⟩
  | .repetition p 0 none greedy, (states, next), free => by
    obtain ⟨looped, low, high⟩ := loop_extends (fun g => build_extends p g free) greedy (states, next)
    simp only [build]
    split
    · exact looped.enterAt (.inr ⟨low, high⟩)
    · exact looped.push (inside_choice greedy looped.entry (.inl rfl))
  | .repetition p (min + 1) none greedy, f, free => by
    have looped := (loop_extends (fun g => build_extends p g free) greedy f).1
    exact chain_extends (fun g h => h.trans (build_extends p g free)) looped min
  | .repetition p min (some max) greedy, (states, next), free => by
    have optional : ∀ g, Extends (states, next) g →
        Extends (states, next) (emit (build p g).1 (choice greedy (build p g).2 next)) := by
      intro g h
      have inner := h.trans (build_extends p g free)
      exact inner.push (inside_choice greedy inner.entry (.inl rfl))
    rw [build]
    exact chain_extends (fun g h => h.trans (build_extends p g free))
      (chain_extends optional (.refl _) (max - min)) min

end Build

/-! ### The run of a terminal -/

theorem lastGroup_eq_zero : ∀ {p : Pattern}, p.groupCount = 0 → p.lastGroup = 0
  | .empty, _ => rfl
  | .literal _, _ => rfl
  | .set _, _ => rfl
  | .assertion _, _ => rfl
  | .seq p q, free => by
    obtain ⟨first, second⟩ := Nat.add_eq_zero_iff.mp free
    rw [Pattern.lastGroup, lastGroup_eq_zero first, lastGroup_eq_zero second]
    rfl
  | .alt p q, free => by
    obtain ⟨first, second⟩ := Nat.add_eq_zero_iff.mp free
    rw [Pattern.lastGroup, lastGroup_eq_zero first, lastGroup_eq_zero second]
    rfl
  | .repetition p _ _ _, free => lastGroup_eq_zero (p := p) free

/-- The states of a pattern inside its group, and where it is entered. -/
def partOf (inner : Pattern) : Fragment :=
  build inner (#[.accept, .record 3 0], 1)

/-- The terminal of a pattern: a state that accepts, one that ends the group, the states of the pattern, one
that begins the group and one that asks for the start of the text. -/
structure Terminal (inner : Pattern) (m : Machine) : Prop where
  groups : m.groups = 1
  start : m.start = (partOf inner).1.size + 1
  entry : 1 ≤ (partOf inner).2 ∧ (partOf inner).2 < (partOf inner).1.size
  states : ∀ {i state}, m.states[i]? = some state →
    (i = 0 ∧ state = .accept) ∨ (i = 1 ∧ state = .record 3 0) ∨
      (2 ≤ i ∧ i < (partOf inner).1.size ∧ Inside 2 (partOf inner).1.size 1 state) ∨
      (i = (partOf inner).1.size ∧ state = .record 2 (partOf inner).2) ∨
      (i = (partOf inner).1.size + 1 ∧ state = .require .textStart (partOf inner).1.size)

theorem terminal_of_bare {inner : Pattern} (free : inner.groupCount = 0) {m : Machine}
    (made : ofPattern? (.seq (.assertion .textStart) (.group 1 inner)) = some m) : Terminal inner m := by
  have part : Extends (#[.accept, .record 3 0], 1) (partOf inner) := build_extends inner _ free
  have size : 2 ≤ (partOf inner).1.size := part.size
  simp only [ofPattern?] at made
  split at made
  · obtain rfl := Option.some.inj made
    refine ⟨?_, ?_, ?_, fun {i state} found => ?_⟩
    · show max 0 (max 1 inner.lastGroup) = 1
      rw [lastGroup_eq_zero free]
      rfl
    · show ((partOf inner).1.push _).size = _
      rw [Array.size_push]
    · have entry : (partOf inner).2 = 1 ∨ (2 ≤ (partOf inner).2 ∧ _) := part.entry
      omega
    · have found : (((partOf inner).1.push (.record 2 (partOf inner).2)).push
          (.require .textStart (partOf inner).1.size))[i]? = some state := found
      rw [Array.getElem?_push] at found
      split at found
      · next last =>
        rw [Array.size_push] at last
        exact .inr (.inr (.inr (.inr ⟨last, (Option.some.inj found).symm⟩)))
      · rw [Array.getElem?_push] at found
        split at found
        · next last => exact .inr (.inr (.inr (.inl ⟨last, (Option.some.inj found).symm⟩)))
        · by_cases inside : 2 ≤ i
          · have below := (Array.getElem?_eq_some_iff.mp found).1
            exact .inr (.inr (.inl ⟨inside, below, part.new inside found⟩))
          · rw [part.old i (Nat.lt_of_not_le inside)] at found
            match i, found with
            | 0, found => exact .inl ⟨rfl, (Option.some.inj found).symm⟩
            | 1, found => exact .inr (.inl ⟨rfl, (Option.some.inj found).symm⟩)
            | i + 2, _ => exact absurd (Nat.le_add_left 2 i) inside
  · cases made

/-- The slots of a run inside the group. -/
def opened : Slots := [none, none, some 0, none]

/-- What the slots are: the group is begun before the states of the pattern and ended behind them. -/
def Spans (inner : Pattern) (position state : Nat) (slots : Slots) : Prop :=
  (state = 0 ∧ slots = [none, none, some 0, some position]) ∨
    (1 ≤ state ∧ state < (partOf inner).1.size ∧ slots = opened) ∨
    ((partOf inner).1.size ≤ state ∧ position = 0 ∧ slots = [none, none, none, none])

theorem Terminal.invariant {inner : Pattern} {m : Machine} (h : Terminal inner m) (text : List Char) :
    m.Invariant text (Spans inner) where
  start := by
    rw [h.groups, h.start]
    exact .inr (.inr ⟨Nat.le_succ _, rfl, rfl⟩)
  split := by
    intro position state slots preferred other found here
    obtain ⟨_, ⟨⟩⟩ | ⟨_, ⟨⟩⟩ | ⟨low, high, inside⟩ | ⟨_, ⟨⟩⟩ | ⟨_, ⟨⟩⟩ := h.states found
    obtain ⟨first, second⟩ := inside
    obtain ⟨_, -⟩ | ⟨-, -, rfl⟩ | ⟨_, -⟩ := here
    · omega
    · exact ⟨.inr (.inl ⟨by omega, by omega, rfl⟩), .inr (.inl ⟨by omega, by omega, rfl⟩)⟩
    · omega
  record := by
    intro position state slots slot next found here
    have entry := h.entry
    obtain ⟨_, ⟨⟩⟩ | ⟨rfl, ⟨⟩⟩ | ⟨low, high, inside⟩ | ⟨rfl, ⟨⟩⟩ | ⟨_, ⟨⟩⟩ := h.states found
    · obtain ⟨none, -⟩ | ⟨-, -, rfl⟩ | ⟨_, -⟩ := here
      · cases none
      · exact .inl ⟨rfl, rfl⟩
      · omega
    · exact inside.elim
    · obtain ⟨_, -⟩ | ⟨-, _, -⟩ | ⟨-, rfl, rfl⟩ := here
      · omega
      · omega
      · exact .inr (.inl ⟨entry.1, entry.2, rfl⟩)
  require := by
    intro position state slots assertion next found here
    obtain ⟨_, ⟨⟩⟩ | ⟨_, ⟨⟩⟩ | ⟨low, high, inside⟩ | ⟨_, ⟨⟩⟩ | ⟨rfl, ⟨⟩⟩ := h.states found
    · obtain ⟨_, -⟩ | ⟨-, -, rfl⟩ | ⟨_, -⟩ := here
      · omega
      · simp only [Inside] at inside
        exact .inr (.inl ⟨by omega, by omega, rfl⟩)
      · omega
    · obtain ⟨_, -⟩ | ⟨-, _, -⟩ | ⟨-, rfl, rfl⟩ := here
      · omega
      · omega
      · exact .inr (.inr ⟨Nat.le_refl _, rfl, rfl⟩)
  take := by
    intro position state slots set next c found _ _ here
    obtain ⟨_, ⟨⟩⟩ | ⟨_, ⟨⟩⟩ | ⟨low, high, inside⟩ | ⟨_, ⟨⟩⟩ | ⟨_, ⟨⟩⟩ := h.states found
    obtain ⟨_, -⟩ | ⟨-, -, rfl⟩ | ⟨_, -⟩ := here
    · omega
    · simp only [Inside] at inside
      exact .inr (.inl ⟨by omega, by omega, rfl⟩)
    · omega

end Machine

/-- What a terminal without groups of its own puts out is its whole match. -/
theorem output_of_bare {p : Pattern} (bare : p.Bare) {m : Machine} (made : Machine.ofPattern? p = some m)
    {s : Slice} {found : Match} (h : match? ⟨m⟩ s = some found) : found.output = found.whole := by
  obtain ⟨inner, free, rfl⟩ := bare
  have terminal := Machine.terminal_of_bare free made
  simp only [match?, Option.map_eq_some_iff] at h
  obtain ⟨⟨length, slots⟩, run, rfl⟩ := h
  obtain ⟨state, accepts, spans⟩ := (terminal.invariant _).run run
  obtain ⟨rfl, rfl⟩ : state = 0 ∧ slots = [none, none, some 0, some length] := by
    obtain ⟨rfl, -⟩ | ⟨_, ⟨⟩⟩ | ⟨low, high, inside⟩ | ⟨_, ⟨⟩⟩ | ⟨_, ⟨⟩⟩ := terminal.states accepts
    · obtain ⟨-, rfl⟩ | ⟨none, -⟩ | ⟨_, -⟩ := spans
      · exact ⟨rfl, rfl⟩
      · cases none
      · have := terminal.entry
        omega
    · exact inside.elim
  rfl

end GrammarKit.Regex
