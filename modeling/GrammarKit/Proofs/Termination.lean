/-
Module: GrammarKit.Proofs.Termination
Purpose: Validated programs come to an end.  A parser runs another one at the same place only if that one is
  lower, and all others later in the input; so no parser is entered again where it is still active, loops end,
  and a depth that grows with the number of parsers and the length of the input suffices.  What validation
  misses are circles through the separator of a list whose element may match without input.
Main exports: Program.watched, Program.recognizer_settled, Parsers.parse_terminates
-/
import GrammarKit.Proofs.Agreement
import GrammarKit.Proofs.Conformance

namespace GrammarKit
namespace Program

/-! ### Watched runs -/

/-- What a parser does if no parser may be entered where it is still active: doing so counts as too deep a
recursion.  `active` holds the parsers that have been entered with the offsets where they were. -/
def watched (p : Program) : Nat → List (ParserId × Nat) → ParserId → Recognizer
  | 0, _, _ => fun _ _ _ t => (.exhausted, t)
  | fuel + 1, active, id => fun rule c input t =>
      if (id, input.start) ∈ active then (.exhausted, t)
      else
        match p.parsers[id]? with
        | none => (.exhausted, t)
        | some parser =>
            parser.operator.recognizer (watched p fuel ((id, input.start) :: active)) parser.label
              (parser.label.getD rule) c input t.attempt

/-- The active parsers let one be entered: those entered here are higher than it, the others were entered
earlier in the input. -/
def Admits (height : ParserId → Nat) (active : List (ParserId × Nat)) (id : ParserId) (s : Slice) : Prop :=
  ∀ entry ∈ active, entry.2 < s.start ∨ entry.2 = s.start ∧ height id < height entry.1

section Run

variable {p : Program} {height : ParserId → Nat}

theorem Admits.not_mem {active : List (ParserId × Nat)} {id : ParserId} {s : Slice}
    (h : Admits height active id s) : (id, s.start) ∉ active := by
  intro member
  rcases h _ member with earlier | ⟨-, lower⟩
  · exact Nat.lt_irrefl _ earlier
  · exact Nat.lt_irrefl _ lower

/-- A lower parser may be entered at the same place. -/
theorem Admits.lower {active : List (ParserId × Nat)} {id part : ParserId} {s : Slice}
    (h : Admits height active id s) (lower : height part < height id) :
    Admits height ((id, s.start) :: active) part s := by
  intro entry member
  rcases List.mem_cons.mp member with rfl | member
  · exact .inr ⟨rfl, lower⟩
  · exact (h entry member).imp_right fun ⟨same, above⟩ => ⟨same, Nat.lt_trans lower above⟩

/-- Any parser may be entered later. -/
theorem Admits.later {active : List (ParserId × Nat)} {id part : ParserId} {s rest : Slice}
    (h : Admits height active id s) (moved : s.start < rest.start) :
    Admits height ((id, s.start) :: active) part rest := by
  intro entry member
  rcases List.mem_cons.mp member with rfl | member
  · exact .inl moved
  · rcases h entry member with earlier | ⟨same, -⟩
    · exact .inl (Nat.lt_trans earlier moved)
    · exact .inl (same ▸ moved)

/-- The depth of recursion that suffices for a parser at a place. -/
def depthFor (p : Program) (height : ParserId → Nat) (id : ParserId) (s : Slice) : Nat :=
  height id + (p.parsers.size + 1) * s.chars.length

theorem depthFor_later (ranked : p.Height height) {id part : ParserId} (inside : part < p.parsers.size)
    {s rest : Slice} (shorter : rest.chars.length < s.chars.length) :
    p.depthFor height part rest < p.depthFor height id s := by
  have low := ranked.bound inside
  have next : (p.parsers.size + 1) * (rest.chars.length + 1) ≤ (p.parsers.size + 1) * s.chars.length :=
    Nat.mul_le_mul_left _ shorter
  rw [Nat.mul_succ] at next
  simp only [depthFor]
  omega

/-- A parser comes to an end in every depth that suffices, in the same way, and without entering any parser
where it is still active. -/
theorem recognizer_settled (progress : p.Progress) (ordered : p.InOrder) (ranked : p.Height height)
    {fuel fuel' : Nat} {active : List (ParserId × Nat)} {id : ParserId} {s : Slice}
    (inside : id < p.parsers.size) (admits : Admits height active id s)
    (enough : p.depthFor height id s < fuel) (enough' : p.depthFor height id s < fuel') :
    Recognizer.Agree (p.watched fuel active id) (p.recognizer fuel' id) s := by
  induction fuel generalizing fuel' active id s with
  | zero => exact absurd enough (Nat.not_lt_zero _)
  | succ fuel ih =>
    obtain ⟨fuel', rfl⟩ := Nat.exists_eq_succ_of_ne_zero (Nat.ne_zero_of_lt enough')
    have here : p.parsers[id]? = some p.parsers[id] := Array.getElem?_eq_getElem inside
    generalize p.parsers[id] = parser at here
    have heads : ∀ part ∈ parser.operator.heads p.nullability,
        Recognizer.Agree (p.watched fuel ((id, s.start) :: active) part) (p.recognizer fuel' part) s := by
      intro part member
      have lower : height part < height id := ranked.lower ⟨parser.operator, by rw [operator?, here]; rfl, member⟩
      have less : p.depthFor height part s < p.depthFor height id s := Nat.add_lt_add_right lower _
      exact ih (ordered.part_lt here (Operator.heads_subset _ _ member)) (admits.lower lower)
        (Nat.lt_of_lt_of_le less (Nat.le_of_lt_succ enough)) (Nat.lt_of_lt_of_le less (Nat.le_of_lt_succ enough'))
    have later : ∀ part ∈ parser.operator.parts,
        Recognizer.AgreeAfter (p.watched fuel ((id, s.start) :: active) part) (p.recognizer fuel' part) s := by
      intro part member rest follows moved
      have start : rest.start ≠ s.start := fun same => moved (follows.eq_of_start_eq same)
      have less : p.depthFor height part rest < p.depthFor height id s :=
        depthFor_later ranked (ordered.part_lt here member) (follows.length_lt start)
      exact ih (ordered.part_lt here member) (admits.later (Nat.lt_of_le_of_ne follows.start_le (Ne.symm start)))
        (Nat.lt_of_lt_of_le less (Nat.le_of_lt_succ enough)) (Nat.lt_of_lt_of_le less (Nat.le_of_lt_succ enough'))
    intro rule c t
    simp only [watched, recognizer, if_neg admits.not_mem, here]
    exact Recognizer.operator_settled progress (p.recognizer_derives fuel') heads later _ _ _ _

/-- The depth that a parse is given suffices for every parser. -/
theorem depthFor_lt_fuelFor (ranked : p.Height height) {id : ParserId} (inside : id < p.parsers.size)
    (input : Slice) : p.depthFor height id input < p.fuelFor input := by
  have low := ranked.bound inside
  have whole : (p.parsers.size + 1) * (input.chars.length + 1) ≤ p.fuelFor input :=
    Nat.le_mul_of_pos_right _ (Nat.succ_pos _)
  rw [Nat.mul_succ] at whole
  simp only [depthFor]
  omega

end Run
end Program

namespace Parsers

variable {g : Grammar} {options : CompileOptions} {p : Parsers}

theorem ofOutcome_ne_endless {α : Type} {outcome : Outcome α} (ends : outcome ≠ .exhausted) :
    ofOutcome outcome ≠ .error .endless := by
  cases outcome with
  | matched value => nofun
  | failed f =>
    rw [ofOutcome]
    split <;> nofun
  | exhausted => exact absurd rfl ends

/-- A parse of all input is endless only if that of its beginning is. -/
theorem parsePartial_of_endless {rule : String} {input : Slice} (endless : p.parse rule input = .error .endless) :
    p.parsePartial rule input = .error .endless := by
  have whole : (p.parsePartial rule input).bind requireAll = .error .endless := endless
  cases result : p.parsePartial rule input with
  | error e =>
    rw [result] at whole
    obtain rfl := Except.error.inj whole
    rfl
  | ok found =>
    rw [result] at whole
    simp only [Except.bind, requireAll] at whole
    split at whole <;> cases whole

/-- **Parses of validated grammars end**, if every terminal takes input that is not known to match without, and
if no list hides a circle from validation: where its element may match without input and its separator may not
stand first, the separator must not lead back to the list before any input is taken.  No parser is entered
again where it is still active, no loop goes on for ever, and any deeper recursion leads to the same result. -/
theorem parse_terminates (compiled : g.compile options = .ok p) (validated : options.validate = true)
    (progress : p.program.Progress) (guarded : p.program.NoHiddenCircle) (rule : String) (input : Slice) :
    p.parsePartial rule input ≠ .error .endless ∧ p.parse rule input ≠ .error .endless ∧
      ∀ slot, p.program.rules.get? rule = some slot → ∀ fuel, p.program.fuelFor input ≤ fuel →
        p.program.watched fuel [] slot rule {} input {} = p.program.start slot rule input ∧
          p.program.recognizer fuel slot rule {} input {} = p.program.start slot rule input := by
  obtain ⟨source, -, -, made, checks⟩ := Grammar.compile_ok compiled
  have ordered := Program.inOrder_ofGrammar made
  have acyclic := (Program.acyclic_iff (checks validated).2 ordered).mpr guarded
  obtain ⟨height, ranked⟩ := Program.exists_height ordered acyclic
  have settled : ∀ {slot}, p.program.rules.get? rule = some slot → ∀ {fuel fuel'},
      p.program.fuelFor input ≤ fuel → p.program.fuelFor input ≤ fuel' →
      Settled (p.program.watched fuel [] slot rule {} input {}) (p.program.recognizer fuel' slot rule {} input {}) := by
    intro slot found fuel fuel' enough enough'
    have inside := ordered.slots (ordered.rules found)
    have depth := Program.depthFor_lt_fuelFor ranked inside input
    have nothing : Program.Admits height [] slot input := fun _ member => nomatch member
    exact Program.recognizer_settled progress ordered ranked inside nothing (Nat.lt_of_lt_of_le depth enough)
      (Nat.lt_of_lt_of_le depth enough') rule {} {}
  have ends : p.parsePartial rule input ≠ .error .endless := by
    simp only [parsePartial, runPartial]
    split
    · intro endless
      cases endless
    · next slot found =>
      obtain ⟨same, ends⟩ := settled found (Nat.le_refl _) (Nat.le_refl _)
      rw [same] at ends
      exact ofOutcome_ne_endless ends
  refine ⟨ends, fun endless => ends (parsePartial_of_endless endless), fun slot found fuel enough => ?_⟩
  · have first := settled found enough (Nat.le_refl (p.program.fuelFor input))
    have second := settled found enough enough
    exact ⟨first.1, second.1.symm.trans first.1⟩

/-- Lists of optional marks, separated by lists in brackets: the elements may match without input and the
separators lead back to the list, but only after a bracket. -/
def brackets : Grammar :=
  ⟨[("list", .list (.quant (.literal "x") 0 1) (.seq [.literal "(", .rule "list", .literal ")"]) {})]⟩

theorem parse_terminates_brackets : ∃ p, brackets.compile {} = .ok p ∧ p.program.Progress ∧
    p.program.NoHiddenCircle ∧ ∀ input, p.parse "list" input ≠ .error .endless := by
  have checked : (brackets.compile {}).toOption.any (fun p =>
      p.program.consumes [2, 3, 4] && p.program.descends [3, 0, 1, 0, 4, 0, 1, 2]) = true := by
    decide +kernel
  cases compiled : brackets.compile {} with
  | error e =>
    rw [compiled] at checked
    cases checked
  | ok p =>
    simp only [compiled, Except.toOption, Option.any_some, Bool.and_eq_true] at checked
    have progress := Program.progress_of_consumes checked.1
    have guarded := Program.noHiddenCircle_of_descends checked.2
    exact ⟨p, rfl, progress, guarded, fun input =>
      (parse_terminates compiled rfl progress guarded "list" input).2.1⟩

/-- A list of optional marks, separated by lists of the same kind: validation does not see that the separator
comes first where an element takes nothing. -/
def unbracketed : Grammar :=
  ⟨[("list", .list (.quant (.literal "x") 0 1) (.rule "list") {})]⟩

theorem unbracketed_endless : ∃ p, unbracketed.compile {} = .ok p ∧
    p.parse "list" (.ofText "") = .error .endless := by
  have ran : (match (unbracketed.compile {}).bind fun p => p.parse "list" (.ofText "") with
    | .error .endless => true
    | _ => false) = true := by
    decide +kernel
  cases compiled : unbracketed.compile {} with
  | error e =>
    have refused : (unbracketed.compile {}).isOk = true := by decide +kernel
    rw [compiled] at refused
    cases refused
  | ok p =>
    simp only [compiled, Except.bind] at ran
    refine ⟨p, rfl, ?_⟩
    split at ran
    · next result => exact result
    · cases ran

end Parsers
end GrammarKit
