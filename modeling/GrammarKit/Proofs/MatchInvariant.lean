/-
Module: GrammarKit.Proofs.MatchInvariant
Purpose: What holds of every match of a regular expression.  A property of positions, states and slots that
  each transition keeps holds of all threads of a run and so of the match that comes out.  The first use is
  that a group never ends behind the match, so that a match without input has no output.
Main exports: Machine.Invariant, Machine.Invariant.run, Regex.match?_follows, Regex.match?_output_eq_nil
-/
import GrammarKit.Proofs.Suffix

namespace GrammarKit.Regex
namespace Machine

/-- A property of a position in a text, the state that is entered there and the slots that led to it, which
holds at the start and is kept by every transition. -/
structure Invariant (m : Machine) (text : List Char) (holds : Nat → Nat → Slots → Prop) : Prop where
  start : holds 0 m.start (List.replicate (2 * (m.groups + 1)) Option.none)
  split : ∀ {position state slots preferred other},
    m.states[state]? = some (.split preferred other) → holds position state slots →
      holds position preferred slots ∧ holds position other slots
  record : ∀ {position state slots slot next},
    m.states[state]? = some (.record slot next) → holds position state slots →
      holds position next (slots.set slot (some position))
  require : ∀ {position state slots assertion next},
    m.states[state]? = some (.require assertion next) → holds position state slots →
      holds position next slots
  take : ∀ {position state slots set next c},
    m.states[state]? = some (.take set next) → text[position]? = some c → set.mem c = true →
      holds position state slots → holds (position + 1) next slots

/-- All threads of a list satisfy a property at a position. -/
def AllThreads (holds : Nat → Nat → Slots → Prop) (position : Nat) (threads : List Thread) : Prop :=
  ∀ t ∈ threads, holds position t.state t.slots

namespace Invariant

variable {m : Machine} {text : List Char} {holds : Nat → Nat → Slots → Prop} (inv : m.Invariant text holds)
include inv

theorem enter {position : Nat} {before after : Option Char} (fuel : Nat) {state : Nat} {slots : Slots}
    {front : Front} (here : holds position state slots)
    (waiting : AllThreads holds position front.threads) :
    AllThreads holds position (m.enter position before after fuel state slots front).threads := by
  induction fuel generalizing state slots front with
  | zero => exact waiting
  | succ fuel ih =>
    simp only [Machine.enter]
    split
    · exact waiting
    · split
      · next found => exact ih (inv.split found here).2 (ih (inv.split found here).1 waiting)
      · next found => exact ih (inv.record found here) waiting
      · next found =>
        split
        · exact ih (inv.require found here) waiting
        · exact waiting
      · intro t member
        rcases List.mem_cons.mp member with rfl | member
        · exact here
        · exact waiting t member

theorem step {position : Nat} {c : Char} {after : Option Char} {front : Front} {t : Thread}
    (next : text[position]? = some c) (here : holds position t.state t.slots)
    (waiting : AllThreads holds (position + 1) front.threads) :
    AllThreads holds (position + 1) (m.step (position + 1) c after front t).threads := by
  simp only [Machine.step]
  split
  · next found =>
    split
    · next takes => exact inv.enter _ (inv.take found next takes here) waiting
    · exact waiting
  · exact waiting

theorem advance {position : Nat} {c : Char} {after : Option Char} {threads : List Thread}
    (next : text[position]? = some c) (here : AllThreads holds position threads) :
    AllThreads holds (position + 1) (m.advance (position + 1) c after threads).threads := by
  suffices ∀ front : Front, AllThreads holds (position + 1) front.threads →
      AllThreads holds (position + 1)
        (threads.foldl (m.step (position + 1) c after) front).threads from
    this Front.none (by simp [AllThreads, Front.none])
  induction threads with
  | nil => exact fun _ waiting => waiting
  | cons t threads ih =>
    intro front waiting
    exact ih (fun t member => here t (List.mem_cons_of_mem _ member)) _
      (inv.step next (here t List.mem_cons_self) waiting)

omit inv in
theorem untilAccept {position : Nat} {threads : List Thread} (here : AllThreads holds position threads) :
    AllThreads holds position (m.untilAccept threads).1 ∧
      ∀ slots, (m.untilAccept threads).2 = some slots →
        ∃ state, m.states[state]? = some .accept ∧ holds position state slots := by
  induction threads with
  | nil => exact ⟨here, by simp [Machine.untilAccept]⟩
  | cons t threads ih =>
    obtain ⟨waiting, accepted⟩ := ih fun t member => here t (List.mem_cons_of_mem _ member)
    simp only [Machine.untilAccept]
    split
    · next found =>
      refine ⟨by simp [AllThreads], ?_⟩
      rintro slots ⟨⟩
      exact ⟨t.state, found, here t List.mem_cons_self⟩
    · refine ⟨?_, accepted⟩
      intro u member
      rcases List.mem_cons.mp member with rfl | member
      · exact here u List.mem_cons_self
      · exact waiting u member

theorem follow {position : Nat} {front : Front} {best : Option (Nat × Slots)} {cs : List Char}
    (left : text.drop position = cs) (here : AllThreads holds position front.threads)
    (known : ∀ length slots, best = some (length, slots) →
      ∃ state, m.states[state]? = some .accept ∧ holds length state slots) {length : Nat} {slots : Slots}
    (result : m.follow position front best cs = some (length, slots)) :
    ∃ state, m.states[state]? = some .accept ∧ holds length state slots := by
  have threads : AllThreads holds position front.threads.reverse := fun t member =>
    here t (List.mem_reverse.mp member)
  obtain ⟨waiting, accepted⟩ := untilAccept (m := m) threads
  induction cs generalizing position front best with
  | nil =>
    simp only [Machine.follow] at result
    split at result
    · next found =>
      obtain ⟨rfl, rfl⟩ := Prod.mk.inj (Option.some.inj result)
      exact accepted _ found
    · exact known _ _ result
  | cons c cs ih =>
    -- whichever match is the best so far, the others are found further on
    have onward : ∀ {best : Option (Nat × Slots)},
        (∀ length slots, best = some (length, slots) →
          ∃ state, m.states[state]? = some .accept ∧ holds length state slots) →
        (if (m.untilAccept front.threads.reverse).1.isEmpty = true then best
          else m.follow (position + 1)
            (m.advance (position + 1) c cs.head? (m.untilAccept front.threads.reverse).1) best cs)
          = some (length, slots) →
        ∃ state, m.states[state]? = some .accept ∧ holds length state slots := by
      intro best better result
      split at result
      · exact better _ _ result
      · have first : text[position]? = some c := by rw [← List.head?_drop, left, List.head?_cons]
        have others : text.drop (position + 1) = cs := by rw [← List.tail_drop, left, List.tail_cons]
        have next : AllThreads holds (position + 1) (m.advance (position + 1) c cs.head?
            (m.untilAccept front.threads.reverse).1).threads := inv.advance first waiting
        have threads := fun t member => next t (List.mem_reverse.mp member)
        exact ih others next better result threads (untilAccept threads).1 (untilAccept threads).2
    cases found : (m.untilAccept front.threads.reverse).2 with
    | some slots' =>
      simp only [Machine.follow, found] at result
      refine onward (fun length slots same => ?_) result
      obtain ⟨rfl, rfl⟩ := Prod.mk.inj (Option.some.inj same)
      exact accepted _ found
    | none =>
      simp only [Machine.follow, found] at result
      exact onward known result

/-- The preferred match ends in an accepting state in which the invariant holds. -/
theorem run {length : Nat} {slots : Slots} (result : m.run text = some (length, slots)) :
    ∃ state, m.states[state]? = some .accept ∧ holds length state slots := by
  refine inv.follow rfl (inv.enter _ inv.start ?_) (by simp) result
  simp [AllThreads, Front.none]

end Invariant

/-! ### Extents -/

/-- All recorded positions are at most a given one. -/
def RecordedUpTo (position : Nat) (slots : Slots) : Prop :=
  ∀ recorded, some recorded ∈ slots → recorded ≤ position

theorem recordedUpTo_invariant (m : Machine) (text : List Char) :
    m.Invariant text fun position _ slots => RecordedUpTo position slots where
  start := by
    intro recorded member
    simp [List.mem_replicate] at member
  split _ here := ⟨here, here⟩
  record _ here := by
    intro recorded member
    rcases List.mem_or_eq_of_mem_set member with member | same
    · exact here recorded member
    · exact Nat.le_of_eq (Option.some.inj same)
  require _ here := here
  take _ _ _ here := fun recorded member => Nat.le_succ_of_le (here recorded member)

end Machine

/-- A group lies between two positions that were recorded. -/
theorem mem_groupSlices {s group : Slice} {slots : Machine.Slots} (h : some group ∈ groupSlices s slots) :
    ∃ first last, some first ∈ slots ∧ some last ∈ slots ∧ group = s.extract first last := by
  match slots with
  | [] => simp [groupSlices] at h
  | [_] => simp [groupSlices] at h
  | first :: last :: slots =>
    simp only [groupSlices, List.mem_cons] at h
    rcases h with here | later
    · cases first <;> cases last <;> simp at here
      exact ⟨_, _, by simp, by simp, here⟩
    · obtain ⟨first, last, start, stop, rfl⟩ := mem_groupSlices later
      exact ⟨first, last, by simp [start], by simp [stop], rfl⟩

theorem Match.output_mem (m : Match) : m.output = m.whole ∨ some m.output ∈ m.groups := by
  suffices ∀ (groups : List (Option Slice)) (start : Slice),
      let output := groups.foldl (fun output group => group.getD output) start
      output = start ∨ some output ∈ groups from this m.groups m.whole
  intro groups
  induction groups with
  | nil => exact fun _ => .inl rfl
  | cons group groups ih =>
    intro start
    rcases ih (group.getD start) with same | member
    · cases group with
      | none => exact .inl same
      | some slice => exact .inr (List.mem_cons.mpr (.inl (congrArg some same)))
    · exact .inr (List.mem_cons_of_mem _ member)

theorem match?_follows {re : Regex} {s : Slice} {m : Match} (h : re.match? s = some m) :
    m.rest.Follows s := by
  simp only [match?, Option.map_eq_some_iff] at h
  obtain ⟨⟨length, slots⟩, -, rfl⟩ := h
  exact s.follows_dropChars length

/-- A match that takes nothing has no output, whatever its groups. -/
theorem match?_output_eq_nil {re : Regex} {s : Slice} {m : Match} (h : re.match? s = some m)
    (nothing : m.rest = s) : m.output.chars = [] := by
  simp only [match?, Option.map_eq_some_iff] at h
  obtain ⟨⟨length, slots⟩, found, rfl⟩ := h
  obtain ⟨-, -, extents⟩ := (Machine.recordedUpTo_invariant re.machine s.chars).run found
  have taken : s.chars.take length = [] := by
    have same : s.chars.length - length = s.chars.length := by
      rw [← List.length_drop]
      exact congrArg (·.chars.length) nothing
    rw [List.take_eq_nil_iff]
    by_cases empty : s.chars = []
    · exact .inr empty
    · have := List.length_pos_iff.mpr empty
      exact .inl (by omega)
  rcases Match.output_mem _ with whole | member
  · rw [whole]
    exact taken
  · obtain ⟨first, last, -, recorded, output⟩ := mem_groupSlices member
    have bound := extents last (List.mem_of_mem_drop recorded)
    rw [output]
    simp only [Slice.extract, Slice.takeChars, Slice.dropChars]
    rcases List.take_eq_nil_iff.mp taken with zero | empty
    · rw [show last - first = 0 by omega, List.take_zero]
    · simp [empty]

end GrammarKit.Regex
