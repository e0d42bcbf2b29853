/-
Module: GrammarKit.Proofs.Adequacy
Purpose: The depth that a parse is given is enough.  While no input is taken, each name can come to be bound to
  nothing only once, and between two such changes a parser that is run inside itself would be run for ever.  So
  a parse that comes to an end in any depth does so in the depth that it is given, with the same verdict.
Main exports: Program.judge_mono, Program.judge_fuelFor, Parsers.endless_iff
-/
import Mathlib.Data.Finset.Card
import GrammarKit.Parsers
import GrammarKit.Proofs.Leniency

namespace GrammarKit

open Classical

theorem Verdict.Upholds.eq_of_ne {α : Type} {v v' : Verdict α} (h : v.Upholds false v') (ends : v ≠ .exhausted) :
    v' = v := by
  rcases h with exhausted | ⟨never, -⟩ | same
  · exact absurd exhausted ends
  · cases never
  · exact same.symm

theorem Operator.Like.refl (lenient : Bool) (operator : Operator) : operator.Like lenient Eq operator := by
  cases operator with
  | pending name => exact .pending
  | terminal t => exact .terminal rfl
  | call target => exact .call rfl
  | seq items => exact .seq (List.forall₂_same.mpr fun item _ => ⟨rfl, rfl, .inl rfl⟩)
  | choice alternatives => exact .choice (List.forall₂_same.mpr fun _ _ => rfl)
  | list element separator style cut => exact .list rfl rfl (.inl rfl)
  | quant term min max => exact .quant rfl
  | backref name default =>
    cases default with
    | none => exact .backref .none
    | some inner => exact .backref (.some rfl)
  | cut inner => exact .cut rfl

namespace Program

variable {p : Program}

/-- What a judge finds is derived by its parser. -/
theorem judge_derives {fuel : Nat} {id : ParserId} {c : Context} {s rest : Slice} {tree : Tree}
    (found : p.judge fuel id c.texts s = .matched (tree, rest)) : Derives p id s tree rest := by
  have nothing : Tally.Knows {} none := nofun
  have judged : Judged (fun found => found) none 0 (p.recognizer fuel id "" { c with generation := none } s {})
      (p.judge fuel id c.texts s) :=
    p.recognizer_refines fuel id (c := { c with generation := none }) nothing
  rw [found] at judged
  generalize ran : p.recognizer fuel id "" { c with generation := none } s {} = result at judged
  cases judged with
  | matched _ => exact p.recognizer_derives fuel id ran

theorem judge_honest (p : Program) (fuel : Nat) (id : ParserId) : (p.judge fuel id).Honest := by
  rintro _ s tree rest ⟨c, rfl⟩ found
  have d := judge_derives found
  exact ⟨d.follows, d.chars_eq_nil⟩

/-! ### Names -/

/-- The names that the sequences of a program bind. -/
def boundNames (p : Program) : List String :=
  p.parsers.toList.flatMap (·.operator.binds)

theorem binds_subset {id : ParserId} {parser : Parser} (here : p.parsers[id]? = some parser) :
    ∀ name ∈ parser.operator.binds, name ∈ p.boundNames := by
  intro name member
  refine List.mem_flatMap.mpr ⟨parser, ?_, member⟩
  rw [Array.mem_toList_iff]
  exact Array.mem_of_getElem? here

theorem length_boundNames (p : Program) : p.boundNames.length = p.bindingCount := by
  have items : ∀ items : List Item,
      (items.filterMap Item.bind).length = items.countP fun item => item.bind.isSome :=
    fun items => by rw [List.length_filterMap_eq_countP]
  have counted : ∀ (parsers : List Parser) (count : Nat) (step : Nat → Parser → Nat),
      (∀ count parser, step count parser = count + parser.operator.binds.length) →
        parsers.foldl step count = count + (parsers.flatMap (·.operator.binds)).length := by
    intro parsers count step steps
    induction parsers generalizing count with
    | nil => rfl
    | cons parser parsers ih =>
      rw [List.foldl_cons, ih, steps, List.flatMap_cons, List.length_append, Nat.add_assoc]
  rw [boundNames, bindingCount, ← Array.foldl_toList, counted _ _ _ fun count parser => ?_, Nat.zero_add]
  cases parser.operator <;> simp only [Operator.binds, List.length_nil, items] <;> omega

/-- The names that are not bound to nothing yet. -/
noncomputable def unsettled (p : Program) (b : Texts) : Finset String :=
  p.boundNames.toFinset.filter fun name => b name ≠ some []

theorem unsettled_card_le (p : Program) (b : Texts) : (p.unsettled b).card ≤ p.bindingCount := by
  refine Nat.le_trans (Finset.card_filter_le _ _) ?_
  rw [← length_boundNames]
  exact List.toFinset_card_le _

/-- The number of times that a run can still come to other texts or places. -/
noncomputable def phases (p : Program) (b : Texts) (s : Slice) : Nat :=
  (p.bindingCount + 1) * s.chars.length + (p.unsettled b).card + 1

/-- Wherever a run leads, it is at the same texts and the same place, or it has fewer phases left. -/
theorem phases_lt {b b' : Texts} {s rest : Slice} (leads : b.Leads p.boundNames s b' rest) :
    (b' = b ∧ rest = s) ∨ p.phases b' rest < p.phases b s := by
  by_cases place : rest = s
  · by_cases texts : b' = b
    · exact .inl ⟨texts, place⟩
    · right
      obtain ⟨name, other⟩ := Function.ne_iff.mp texts
      have subset : p.unsettled b' ⊂ p.unsettled b := by
        refine ⟨fun name' member => ?_, fun superset => ?_⟩
        · obtain ⟨known, filled⟩ := Finset.mem_filter.mp member
          rcases leads.here place name' with kept | ⟨-, emptied⟩
          · exact Finset.mem_filter.mpr ⟨known, kept ▸ filled⟩
          · exact absurd emptied filled
        · obtain ⟨known, emptied⟩ := (leads.here place name).resolve_left other
          have before : name ∈ p.unsettled b :=
            Finset.mem_filter.mpr ⟨List.mem_toFinset.mpr known, fun empty => other (emptied.trans empty.symm)⟩
          exact (Finset.mem_filter.mp (superset before)).2 emptied
      have fewer := Finset.card_lt_card subset
      rw [phases, phases, place]
      omega
  · right
    have start : rest.start ≠ s.start := fun same => place (leads.follows.eq_of_start_eq same)
    have shorter := leads.follows.length_lt start
    have few := p.unsettled_card_le b'
    have steps : (p.bindingCount + 1) * (rest.chars.length + 1) ≤ (p.bindingCount + 1) * s.chars.length :=
      Nat.mul_le_mul_left _ shorter
    rw [Nat.mul_succ] at steps
    rw [phases, phases]
    omega

/-! ### Depth -/

/-- A deeper recursion does not change what has been decided. -/
theorem judge_mono {fuel fuel' : Nat} (le : fuel ≤ fuel') {id : ParserId} {b : Texts} (real : b.Real)
    (s : Slice) : (p.judge fuel id b s).Upholds false (p.judge fuel' id b s) := by
  induction fuel generalizing fuel' id b s with
  | zero => exact .inl rfl
  | succ fuel ih =>
    obtain ⟨fuel', rfl⟩ := Nat.exists_eq_succ_of_ne_zero (Nat.ne_zero_of_lt le)
    simp only [judge]
    cases here : p.parsers[id]? with
    | none => exact .inl rfl
    | some parser =>
      refine Judge.operator_upholds (p.judge_honest fuel) (.refl false parser.operator) (binds_subset here) real
        ?_ parser.label
      rintro part _ rfl b' rest leads
      exact ih (Nat.le_of_succ_le_succ le) leads.real rest

/-- Two depths that suffice lead to the same verdict. -/
theorem judge_eq {fuel fuel' : Nat} {id : ParserId} {b : Texts} (real : b.Real) {s : Slice}
    (ends : p.judge fuel id b s ≠ .exhausted) (ends' : p.judge fuel' id b s ≠ .exhausted) :
    p.judge fuel' id b s = p.judge fuel id b s := by
  have first := (judge_mono (Nat.le_max_left fuel fuel') real s).eq_of_ne ends
  have second := (judge_mono (Nat.le_max_right fuel fuel') real s).eq_of_ne ends'
  exact second.symm.trans first

theorem judge_ends_mono {fuel fuel' : Nat} (le : fuel ≤ fuel') {id : ParserId} {b : Texts} (real : b.Real)
    {s : Slice} (ends : p.judge fuel id b s ≠ .exhausted) : p.judge fuel' id b s ≠ .exhausted := by
  rw [(judge_mono le real s).eq_of_ne ends]
  exact ends

/-- The parsers that come to an end in a depth. -/
noncomputable def ended (p : Program) (b : Texts) (s : Slice) (fuel : Nat) : Finset ParserId :=
  (Finset.range p.parsers.size).filter fun id => p.judge fuel id b s ≠ .exhausted

theorem mem_ended {b : Texts} {s : Slice} {fuel : Nat} {id : ParserId} :
    id ∈ p.ended b s fuel ↔ p.judge fuel id b s ≠ .exhausted := by
  refine ⟨fun member => (Finset.mem_filter.mp member).2, fun ends => Finset.mem_filter.mpr ⟨?_, ends⟩⟩
  rw [Finset.mem_range]
  cases fuel with
  | zero => exact absurd rfl ends
  | succ fuel =>
    by_contra outside
    have nothing : p.parsers[id]? = none := Array.getElem?_eq_none (Nat.not_lt.mp outside)
    simp only [judge, nothing, ne_eq, not_true] at ends

/-- At some texts and a place, each parser needs to be deeper only than those that end before it does, and than
what suffices wherever they lead. -/
theorem judge_ended {b : Texts} (real : b.Real) {s : Slice} {enough : Nat}
    (later : ∀ {b' rest}, b.Leads p.boundNames s b' rest → p.phases b' rest < p.phases b s →
      ∀ {fuel id}, p.judge fuel id b' rest ≠ .exhausted → p.judge enough id b' rest ≠ .exhausted)
    (fuel : Nat) {id : ParserId} (ends : p.judge fuel id b s ≠ .exhausted) :
    p.judge (enough + (p.ended b s fuel).card) id b s ≠ .exhausted := by
  induction fuel generalizing id with
  | zero => exact absurd rfl ends
  | succ fuel ih =>
    have grows : p.ended b s fuel ⊆ p.ended b s (fuel + 1) :=
      fun id member => mem_ended.mpr (judge_ends_mono (Nat.le_succ fuel) real (mem_ended.mp member))
    by_cases earlier : id ∈ p.ended b s fuel
    · have le : enough + (p.ended b s fuel).card ≤ enough + (p.ended b s (fuel + 1)).card :=
        Nat.add_le_add_left (Finset.card_le_card grows) _
      exact judge_ends_mono le real (ih (mem_ended.mp earlier))
    · have proper : p.ended b s fuel ⊂ p.ended b s (fuel + 1) :=
        ⟨grows, fun subset => earlier (subset (mem_ended.mpr ends))⟩
      have le : enough + (p.ended b s fuel).card + 1 ≤ enough + (p.ended b s (fuel + 1)).card := by
        have := Finset.card_lt_card proper
        omega
      refine judge_ends_mono le real ?_
      simp only [judge] at ends ⊢
      cases here : p.parsers[id]? with
      | none => simp only [here, ne_eq, not_true] at ends
      | some parser =>
        simp only [here] at ends ⊢
        have parts : ∀ {part part' : ParserId}, part = part' → Judge.Upholds p.boundNames false b s
            (p.judge fuel part) (p.judge (enough + (p.ended b s fuel).card) part') := by
          rintro part _ rfl b' rest leads
          by_cases deep : p.judge fuel part b' rest = .exhausted
          · exact .inl deep
          · have ends' : p.judge (enough + (p.ended b s fuel).card) part b' rest ≠ .exhausted := by
              rcases phases_lt leads with ⟨rfl, rfl⟩ | fewer
              · exact ih deep
              · exact judge_ends_mono (Nat.le_add_right _ _) leads.real (later leads fewer deep)
            exact .inr (.inr (judge_eq leads.real ends' deep))
        have upholds := Judge.operator_upholds (p.judge_honest fuel) (.refl false parser.operator)
          (binds_subset here) real parts parser.label
        rw [upholds.eq_of_ne ends]
        exact ends

/-- As many times as a run can come to other texts or places, all parsers may be inside each other. -/
theorem judge_enough {count : Nat} {b : Texts} (real : b.Real) {s : Slice} (bound : p.phases b s ≤ count)
    {fuel : Nat} {id : ParserId} (ends : p.judge fuel id b s ≠ .exhausted) :
    p.judge (p.parsers.size * count) id b s ≠ .exhausted := by
  induction count generalizing b s fuel id with
  | zero => exact absurd bound (Nat.not_le.mpr (Nat.succ_pos _))
  | succ count ih =>
    have later : ∀ {b' rest}, b.Leads p.boundNames s b' rest → p.phases b' rest < p.phases b s →
        ∀ {fuel id}, p.judge fuel id b' rest ≠ .exhausted →
          p.judge (p.parsers.size * count) id b' rest ≠ .exhausted :=
      fun leads fewer => ih leads.real (Nat.le_of_lt_succ (Nat.lt_of_lt_of_le fewer bound))
    refine judge_ends_mono ?_ real (judge_ended real later fuel ends)
    have few : (p.ended b s fuel).card ≤ p.parsers.size := by
      have := Finset.card_filter_le (Finset.range p.parsers.size) fun id => p.judge fuel id b s ≠ .exhausted
      rwa [Finset.card_range] at this
    rw [Nat.mul_succ]
    exact Nat.add_le_add_left few _

/-- A verdict that is reached in any depth is reached in the depth that a parse is given. -/
theorem judge_fuelFor {b : Texts} (real : b.Real) {input : Slice} {fuel : Nat} {id : ParserId}
    (ends : p.judge fuel id b input ≠ .exhausted) :
    p.judge (p.fuelFor input) id b input = p.judge fuel id b input := by
  have bound : p.phases b input ≤ (p.bindingCount + 1) * (input.chars.length + 1) := by
    have few := p.unsettled_card_le b
    rw [phases, Nat.mul_succ]
    omega
  have le : p.parsers.size * ((p.bindingCount + 1) * (input.chars.length + 1)) ≤ p.fuelFor input := by
    rw [fuelFor, Nat.mul_assoc, Nat.mul_comm (p.bindingCount + 1)]
    exact Nat.mul_le_mul (Nat.le_succ _) (Nat.mul_le_mul_left _ (Nat.le_succ _))
  exact judge_eq real ends (judge_ends_mono le real (judge_enough real bound ends))

end Program

/-! ### Parses -/

/-- Nothing is bound yet. -/
def Texts.unbound : Texts :=
  Context.texts {}

theorem Texts.real_unbound : unbound.Real :=
  ⟨{}, rfl⟩

/-- A run from the start of the input decides what its judge says. -/
theorem Program.recognizer_judged (p : Program) (fuel : Nat) (slot : ParserId) (rule : String) (input : Slice) :
    Judged id none 0 (p.recognizer fuel slot rule {} input {}) (p.judge fuel slot .unbound input) := by
  have nothing : Tally.Knows {} none := nofun
  exact p.recognizer_refines fuel slot (c := {}) (t := {}) nothing

/-- The result of a parse, and what the judge of its rule says. -/
inductive Verdict.Shows {α : Type} : Verdict α → Except Error α → Prop
  | matched {value} : Shows (.matched value) (.ok value)
  | failed {f} : Shows .failed (.error (.parse f))
  | fatal {f} : Shows .fatal (.error (.fatal f))
  | exhausted : Shows .exhausted (.error .endless)

namespace Parsers

variable {p : Parsers} {rule : String} {slot : ParserId}

/-- A parse gives what the judge of its rule says. -/
theorem shows_parsePartial (found : p.program.rules.get? rule = some slot) (input : Slice) :
    (p.program.judge (p.program.fuelFor input) slot .unbound input).Shows (p.parsePartial rule input) := by
  have judged := p.program.recognizer_judged (p.program.fuelFor input) slot rule input
  simp only [parsePartial, runPartial, found, Program.start]
  generalize p.program.recognizer _ slot rule {} input {} = result at judged ⊢
  generalize p.program.judge _ slot _ input = verdict at judged ⊢
  cases judged with
  | matched _ => exact .matched
  | failed _ same =>
    simp only [ofOutcome, same, Option.isSome_none, Bool.false_eq_true, if_false]
    exact .failed
  | fatal same _ _ =>
    simp only [ofOutcome, same, Option.isSome_some, if_true]
    exact .fatal
  | exhausted => exact .exhausted

/-- A parse is endless just if no depth of the recursion brings it to an end. -/
theorem endless_iff (found : p.program.rules.get? rule = some slot) (input : Slice) :
    p.parsePartial rule input = .error .endless ↔
      ∀ fuel, (p.program.recognizer fuel slot rule {} input {}).1 = .exhausted := by
  constructor
  · intro endless fuel
    have judged := p.program.recognizer_judged fuel slot rule input
    by_cases ends : p.program.judge fuel slot .unbound input = .exhausted
    · rw [ends] at judged
      generalize p.program.recognizer fuel slot rule {} input {} = result at judged ⊢
      cases judged
      rfl
    · -- a verdict that is reached at all is reached in this parse
      have shows := shows_parsePartial found input
      rw [endless, Program.judge_fuelFor Texts.real_unbound ends] at shows
      generalize p.program.judge fuel slot .unbound input = verdict at ends shows
      cases shows
      exact absurd rfl ends
  · intro exhausted
    have ran := exhausted (p.program.fuelFor input)
    simp only [parsePartial, runPartial, found, Program.start]
    rw [ran]
    rfl

end Parsers
end GrammarKit
