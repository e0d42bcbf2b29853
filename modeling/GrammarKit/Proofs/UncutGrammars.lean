/-
Module: GrammarKit.Proofs.UncutGrammars
Purpose: Grammars without cutpoints.  Neither the elimination of stacks nor the compiler makes cutpoints, so nothing
  in such a grammar can fail for good.
Main exports: Grammar.Uncut, Program.Uncut, Program.Uncut.judge_ne_fatal, Parsers.uncut_compile
-/
import Mathlib.Tactic.Common
import GrammarKit.Proofs.Mentions
import GrammarKit.Proofs.Validity
import GrammarKit.Proofs.Verdict

namespace GrammarKit

/-! ### Grammars -/

/-- A grammar in which there is no cutpoint, nor in its local rules. -/
def Grammar.Uncut (g : Grammar) : Prop :=
  ∀ m ∈ g.mentions, m ≠ .cut

instance (g : Grammar) : Decidable g.Uncut :=
  inferInstanceAs (Decidable (∀ m ∈ g.mentions, m ≠ .cut))

/-- Without its stacks, a grammar without cutpoints still has none. -/
theorem Grammar.uncut_eliminateStacks {g flat : Grammar} (h : g.eliminateStacks = .ok flat) (uncut : g.Uncut) :
    flat.Uncut :=
  mentions_eliminateStacks ⟨fun _ _ => nofun, fun _ _ => nofun⟩ h uncut

theorem Term.isCut_of_mentions {t : Term} (uncut : ∀ m ∈ t.mentions, m ≠ .cut) : t.isCut = false := by
  cases t with
  | capture name t => exact isCut_of_mentions (t := t) fun m member => uncut m (.tail _ member)
  | cut t => exact absurd rfl (uncut .cut List.mem_cons_self)
  | _ => rfl

/-! ### Programs -/

/-- An operator that commits to nothing. -/
def Operator.Uncut : Operator → Prop
  | .seq items => ∀ item ∈ items, item.cut = false
  | .list _ _ _ cutSeparator => cutSeparator = false
  | _ => True

namespace Program

/-- A draft in which no operator commits to anything. -/
def Draft.Uncut (d : Draft) : Prop :=
  ∀ ⦃id : ParserId⦄ ⦃label operator⦄, d.parsers[id]? = some ⟨label, operator⟩ → operator.Uncut

namespace Draft.Uncut

variable {d : Draft} (h : d.Uncut)
include h

theorem push (operator : Operator) (uncut : operator.Uncut) (label : Option String) :
    (d.push label operator).2.Uncut := by
  intro id label' operator' found
  simp only [Draft.push, Array.getElem?_push] at found
  split at found
  · cases found
    exact uncut
  · exact h found

theorem register (names : Names) (entries : List (String × Term)) : (d.register names entries).2.Uncut := by
  induction entries generalizing d names with
  | nil => exact h
  | cons entry entries ih =>
    rw [Draft.register]
    split
    · exact ih h _
    · have pushed : (d.push none (.pending entry.1)).2.Uncut := h.push (.pending entry.1) trivial none
      have added : Draft.Uncut
          ⟨(d.push none (.pending entry.1)).2.parsers, d.slots ++ [(d.parsers.size, entry.1)]⟩ := pushed
      exact ih (d := ⟨_, _⟩) added _

theorem patch (slot body : ParserId) : (d.patch slot body).Uncut := by
  intro id label operator found
  simp only [Draft.patch, Array.getElem?_modify] at found
  split at found
  · obtain ⟨parser, -, same⟩ := Option.map_eq_some_iff.mp found
    cases same
    trivial
  · exact h found

end Draft.Uncut

mutual
/-- Compiling a term without cutpoints makes no parser that commits to anything. -/
theorem build_uncut : ∀ {s d label t id later}, build s d label t = .ok (id, later) →
    (∀ m ∈ t.mentions, m ≠ .cut) → d.Uncut → later.Uncut
  | _, _, _, .capture _ t, _, _, h, uncut, before =>
      build_uncut (t := t) h (fun m member => uncut m (.tail _ member)) before
  | s, d, _, .withRules t ⟨entries⟩, _, _, h, uncut, before => by
    obtain ⟨inner, table⟩ := List.forall_mem_append.mp uncut
    obtain ⟨padding, -, h⟩ := Except.bind_eq_ok h
    obtain ⟨d', filled, h⟩ := Except.bind_eq_ok h
    exact build_uncut h inner (buildEntries_uncut filled table (before.register _ _))
  | _, _, _, .cut _, _, _, _, uncut, _ => absurd rfl (uncut .cut List.mem_cons_self)
  | _, _, _, .rule _, _, _, h, _, before => by
    simp only [build] at h
    split at h
    · cases h
      exact before.push (.call _) trivial _
    · cases h
  | _, _, _, .literal _, _, _, h, _, before => by
    obtain ⟨made, -, h⟩ := Except.bind_eq_ok h
    cases h
    exact before.push (.terminal made) trivial _
  | _, _, _, .regex _, _, _, h, _, before => by
    obtain ⟨made, -, h⟩ := Except.bind_eq_ok h
    cases h
    exact before.push (.terminal made) trivial _
  | _, _, _, .seq ts, _, _, h, uncut, before => by
    obtain ⟨⟨items, d'⟩, parts, h⟩ := Except.bind_eq_ok h
    cases h
    obtain ⟨free, after⟩ := buildItems_uncut parts uncut before
    exact after.push (.seq items) free _
  | _, _, _, .choice ts, _, _, h, uncut, before => by
    obtain ⟨⟨ids, d'⟩, parts, h⟩ := Except.bind_eq_ok h
    cases h
    exact (@buildAll_uncut _ _ ts _ _ parts uncut before).push (.choice ids) trivial _
  | _, _, _, .list element separator style, _, _, h, uncut, before => by
    obtain ⟨first, second⟩ := List.forall_mem_append.mp uncut
    obtain ⟨⟨elementId, d₁⟩, found, h⟩ := Except.bind_eq_ok h
    obtain ⟨⟨separatorId, d₂⟩, found', h⟩ := Except.bind_eq_ok h
    cases h
    have after := build_uncut found' second (build_uncut found first before)
    exact after.push (.list elementId separatorId style separator.isCut) (Term.isCut_of_mentions second) _
  | _, _, _, .quant t min max, _, _, h, uncut, before => by
    obtain ⟨⟨inner, d'⟩, body, h⟩ := Except.bind_eq_ok h
    cases h
    exact (build_uncut (t := t) body uncut before).push (.quant inner min max) trivial _
  | _, _, _, .backref name none, _, _, h, _, before => by
    cases h
    exact before.push (.backref name none) trivial _
  | _, _, _, .backref name (some t), _, _, h, uncut, before => by
    obtain ⟨⟨made, d'⟩, body, h⟩ := Except.bind_eq_ok h
    obtain ⟨⟨id, d''⟩, here, same⟩ := Except.bind_eq_ok body
    cases same
    cases h
    have inside : ∀ m ∈ t.mentions, m ≠ .cut := fun m member => uncut m (.tail _ member)
    exact (build_uncut here inside before).push (.backref name (some id)) trivial _
  | _, _, _, .stack _, _, _, h, _, _ => by cases h

theorem buildItems_uncut : ∀ {s d ts items later}, buildItems s d ts = .ok (items, later) →
    (∀ m ∈ Term.mentionsAll ts, m ≠ .cut) → d.Uncut → (∀ item ∈ items, item.cut = false) ∧ later.Uncut
  | _, _, [], _, _, h, _, before => by
    cases h
    exact ⟨nofun, before⟩
  | _, _, t :: ts, _, _, h, uncut, before => by
    obtain ⟨first, others⟩ := List.forall_mem_append.mp uncut
    obtain ⟨⟨id, d₁⟩, here, h⟩ := Except.bind_eq_ok h
    obtain ⟨⟨items, d₂⟩, rest, h⟩ := Except.bind_eq_ok h
    cases h
    obtain ⟨free, after⟩ := buildItems_uncut rest others (build_uncut here first before)
    exact ⟨List.forall_mem_cons.mpr ⟨Term.isCut_of_mentions first, free⟩, after⟩

theorem buildAll_uncut : ∀ {s d ts ids later}, buildAll s d ts = .ok (ids, later) →
    (∀ m ∈ Term.mentionsAll ts, m ≠ .cut) → d.Uncut → later.Uncut
  | _, _, [], _, _, h, _, before => by
    cases h
    exact before
  | _, _, t :: ts, _, _, h, uncut, before => by
    obtain ⟨first, others⟩ := List.forall_mem_append.mp uncut
    obtain ⟨⟨id, d₁⟩, here, h⟩ := Except.bind_eq_ok h
    obtain ⟨⟨ids, d₂⟩, rest, h⟩ := Except.bind_eq_ok h
    cases h
    exact buildAll_uncut rest others (build_uncut here first before)

theorem buildEntries_uncut : ∀ {s d entries later}, buildEntries s d entries = .ok later →
    (∀ m ∈ Term.mentionsEntries entries, m ≠ .cut) → d.Uncut → later.Uncut
  | _, _, [], _, h, _, before => by
    cases h
    exact before
  | s, _, (name, t) :: entries, _, h, uncut, before => by
    obtain ⟨-, uncut⟩ := List.forall_mem_cons.mp uncut
    obtain ⟨first, others⟩ := List.forall_mem_append.mp uncut
    rw [buildEntries] at h
    split at h
    · exact buildEntries_uncut h others before
    · obtain ⟨⟨body, d'⟩, here, h⟩ := Except.bind_eq_ok h
      have made := build_uncut here first before
      refine buildEntries_uncut h others ?_
      split
      · exact made.patch _ _
      · exact made
end

/-- A program in which no operator commits to anything. -/
def Uncut (p : Program) : Prop :=
  ∀ ⦃id : ParserId⦄ ⦃label operator⦄, p.parsers[id]? = some ⟨label, operator⟩ → operator.Uncut

theorem uncut_ofGrammar {g : Grammar} {p : Program} (h : ofGrammar g = .ok p) (uncut : g.Uncut) : p.Uncut := by
  obtain ⟨entries⟩ := g
  obtain ⟨padding, -, h⟩ := Except.bind_eq_ok h
  obtain ⟨d, filled, h⟩ := Except.bind_eq_ok h
  have empty : Draft.Uncut ⟨#[], []⟩ := nofun
  have after := buildEntries_uncut filled uncut (empty.register _ _)
  split at h
  · cases h
  · rw [← Except.ok.inj h]
    exact after

end Program

/-! ### Verdicts -/

section Verdicts

variable {α β : Type}

theorem Verdict.andThen_ne_fatal {v : Verdict α} {next : α → Verdict β} {otherwise : Verdict β} (h : v ≠ .fatal)
    (goesOn : ∀ value, next value ≠ .fatal) (fails : otherwise ≠ .fatal) :
    v.andThen next otherwise ≠ .fatal := by
  cases v with
  | matched value => exact goesOn value
  | failed => exact fails
  | fatal => exact absurd rfl h
  | exhausted => exact nofun

end Verdicts

/-- A judge that always leaves a choice. -/
def Judge.Mild (run : Judge) : Prop :=
  ∀ b s, run b s ≠ .fatal

namespace Judge

section Operators

variable {self : ParserId → Judge} (mild : ∀ id, (self id).Mild) {b : Texts} {s : Slice}
include mild

theorem sequenceFrom_ne_fatal {items : List Item} (uncut : ∀ item ∈ items, item.cut = false) :
    sequenceFrom (items.map fun item => ⟨item.bind, item.cut, self item.parser⟩) false b s ≠ .fatal := by
  induction items generalizing b s with
  | nil => exact nofun
  | cons item items ih =>
    rw [List.map_cons, sequenceFrom, uncut item List.mem_cons_self]
    apply Verdict.andThen_ne_fatal (mild _ b s)
    · intro first
      exact Verdict.andThen_ne_fatal (ih fun item member => uncut item (.tail _ member)) (fun _ => nofun) nofun
    · exact nofun

theorem choiceFrom_ne_fatal {tag : String} (alternatives : List ParserId) (index : Nat) :
    choiceFrom tag b s (alternatives.map self) index ≠ .fatal := by
  induction alternatives generalizing index with
  | nil => exact nofun
  | cons id ids ih => exact Verdict.andThen_ne_fatal (mild id b s) (fun _ => nofun) (ih _)

theorem repeatFrom_ne_fatal {term : ParserId} {min max fuel : Nat} (trees : Array Tree) :
    repeatFrom (self term) b min max fuel trees s ≠ .fatal := by
  induction fuel generalizing trees s with
  | zero => exact nofun
  | succ fuel ih =>
    rw [repeatFrom]
    split
    · exact nofun
    · apply Verdict.andThen_ne_fatal (mild term b s)
      · intro found
        split
        · exact nofun
        · exact ih _
      · exact nofun

section Lists

variable {element separator : ParserId} {style : ListStyle}

theorem pair_ne_fatal (mayElide : Bool) :
    pair ⟨self element, self separator, style, false⟩ b mayElide s ≠ .fatal := by
  apply Verdict.andThen_ne_fatal (mild separator b s)
  · intro mark
    refine Verdict.andThen_ne_fatal (mild element b mark.2) (fun _ => nofun) ?_
    cases mayElide <;> exact nofun
  · exact nofun

theorem listHead_ne_fatal : listHead ⟨self element, self separator, style, false⟩ b s ≠ .fatal := by
  refine Verdict.andThen_ne_fatal (mild element b s) (fun _ => nofun) ?_
  split
  · refine Verdict.andThen_ne_fatal (pair_ne_fatal mild false) ?_ nofun
    rintro (_ | ⟨mark, _ | tree, rest⟩) <;> exact nofun
  · exact nofun

theorem listTail_ne_fatal {fuel : Nat} (slots : Array Tree) :
    listTail ⟨self element, self separator, style, false⟩ b fuel slots s ≠ .fatal := by
  induction fuel generalizing slots s with
  | zero => exact nofun
  | succ fuel ih =>
    refine Verdict.andThen_ne_fatal (pair_ne_fatal mild _) ?_ nofun
    rintro (_ | found)
    · exact nofun
    · dsimp only
      split
      · exact nofun
      · exact ih _

end Lists

/-- An operator that commits to nothing leaves a choice if its parts do. -/
theorem operator_mild (label : Option String) {operator : Operator} (uncut : operator.Uncut) :
    (operator.judge self label).Mild := by
  intro b s
  cases operator with
  | pending name => rintro ⟨⟩
  | terminal terminal =>
    simp only [Operator.judge, Judge.terminal]
    cases terminal.regex.match? s <;> rintro ⟨⟩
  | call target => exact mild target b s
  | cut inner => exact mild inner b s
  | seq items =>
    apply Verdict.andThen_ne_fatal (sequenceFrom_ne_fatal mild uncut)
    · rintro _ ⟨⟩
    · rintro ⟨⟩
  | choice alternatives => exact choiceFrom_ne_fatal mild alternatives 0
  | list element separator style cutSeparator =>
    obtain rfl : cutSeparator = false := uncut
    apply Verdict.andThen_ne_fatal (listHead_ne_fatal mild)
    · intro head
      apply Verdict.andThen_ne_fatal (listTail_ne_fatal mild _)
      · rintro _ ⟨⟩
      · rintro ⟨⟩
    · rintro ⟨⟩
  | quant term min max =>
    apply Verdict.andThen_ne_fatal (repeatFrom_ne_fatal mild _)
    · intro found
      split <;> rintro ⟨⟩
    · rintro ⟨⟩
  | backref name default =>
    simp only [Operator.judge, Judge.backref]
    cases b name with
    | some chars =>
      dsimp only
      cases s.splitLiteral? chars <;> rintro ⟨⟩
    | none =>
      cases default with
      | none => rintro ⟨⟩
      | some inner =>
        apply Verdict.andThen_ne_fatal (mild inner b s)
        · rintro _ ⟨⟩
        · rintro ⟨⟩

end Operators
end Judge

/-- A program that commits to nothing always leaves a choice. -/
theorem Program.Uncut.judge_ne_fatal {p : Program} (uncut : p.Uncut) (fuel : Nat) (id : ParserId) :
    (p.judge fuel id).Mild := by
  induction fuel generalizing id with
  | zero => exact fun _ _ => nofun
  | succ fuel ih =>
    intro b s
    rw [judge]
    cases here : p.parsers[id]? with
    | none => exact nofun
    | some parser => exact Judge.operator_mild ih parser.label (uncut here) b s

/-- The program of a grammar without cutpoints commits to nothing. -/
theorem Parsers.uncut_compile {g : Grammar} {options : CompileOptions} {p : Parsers}
    (compiled : g.compile options = .ok p) (uncut : p.grammar.Uncut) : p.program.Uncut := by
  obtain ⟨-, eliminated, made, -⟩ := Grammar.compile_steps compiled
  exact Program.uncut_ofGrammar made (Grammar.uncut_eliminateStacks eliminated uncut)

end GrammarKit
