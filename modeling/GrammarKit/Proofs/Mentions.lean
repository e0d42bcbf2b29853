/-
Module: GrammarKit.Proofs.Mentions
Purpose: What a grammar mentions: the rules it defines and refers to, its captures and back references, and its
  cutpoints.  Taking stacks out of a grammar brings in no more than layers of the rules it defines, so what holds of
  all mentions still does.
Main exports: Mention, Term.mentions, Mention.Layered, Grammar.mentions_eliminateStacks
-/
import Mathlib.Tactic.Common
import GrammarKit.Proofs.Features

namespace GrammarKit

/-- Something that a grammar mentions. -/
inductive Mention where
  | definition (name : String)
  | reference (name : String)
  | capture (name : String)
  | backref (name : String)
  | cut
deriving Repr, DecidableEq

/-- The name that is mentioned. -/
def Mention.names : Mention → List String
  | definition name => [name]
  | reference name => [name]
  | capture name => [name]
  | backref name => [name]
  | cut => []

namespace Term

mutual
/-- All that a term mentions, its local rules included. -/
def mentions : Term → List Mention
  | rule name => [.reference name]
  | literal _ => []
  | regex _ => []
  | seq ts => mentionsAll ts
  | choice ts => mentionsAll ts
  | stack ts => mentionsAll ts
  | list element separator _ => mentions element ++ mentions separator
  | quant t _ _ => mentions t
  | capture name t => .capture name :: mentions t
  | backref name default => .backref name :: mentionsDefault default
  | cut t => .cut :: mentions t
  | withRules t rules => mentions t ++ mentionsTable rules

/-- All that several terms mention. -/
def mentionsAll : List Term → List Mention
  | [] => []
  | t :: ts => mentions t ++ mentionsAll ts

/-- All that a default mentions. -/
def mentionsDefault : Option Term → List Mention
  | none => []
  | some t => mentions t

/-- All that the rules of a table mention. -/
def mentionsTable : Table Term → List Mention
  | ⟨entries⟩ => mentionsEntries entries

/-- All that the rules among some entries mention. -/
def mentionsEntries : List (String × Term) → List Mention
  | [] => []
  | (name, t) :: entries => .definition name :: (mentions t ++ mentionsEntries entries)
end

end Term

/-- All that a grammar mentions. -/
def Grammar.mentions (g : Grammar) : List Mention :=
  Term.mentionsTable g

/-! ### Without stacks -/

/-- Something that holds of the layers of a rule if it holds of the rule. -/
structure Mention.Layered (holds : Mention → Prop) : Prop where
  definition : ∀ {base} layer, holds (.definition base) → holds (.definition (layerName base layer))
  reference : ∀ {base} layer, holds (.definition base) → holds (.reference (layerName base layer))

section Mentions

variable {holds : Mention → Prop}

theorem forall_mentionsEntries {entries : List (String × Term)} :
    (∀ m ∈ Term.mentionsEntries entries, holds m) ↔
      ∀ entry ∈ entries, holds (.definition entry.1) ∧ ∀ m ∈ entry.2.mentions, holds m := by
  induction entries with
  | nil => simp [Term.mentionsEntries]
  | cons entry entries ih =>
    simp only [Term.mentionsEntries, List.forall_mem_cons, List.forall_mem_append, ih, and_assoc]

namespace Term

mutual
theorem mentions_resolve {old new : String} (here : holds (.reference new)) : ∀ {t u : Term},
    t.resolve old new = .ok u → (∀ m ∈ t.mentions, holds m) → ∀ m ∈ u.mentions, holds m
  | rule name, _, h, known => by
    cases h
    rw [mentions, List.forall_mem_singleton] at known ⊢
    split
    · exact here
    · exact known
  | literal _, _, h, _ => by cases h; nofun
  | regex _, _, h, _ => by cases h; nofun
  | seq ts, _, h, known => by
    obtain ⟨us, found, rfl⟩ := Except.map_eq_ok h
    exact mentionsAll_resolve here found known
  | choice ts, _, h, known => by
    obtain ⟨us, found, rfl⟩ := Except.map_eq_ok h
    exact mentionsAll_resolve here found known
  | stack _, _, h, _ => by cases h
  | list element separator _, _, h, known => by
    obtain ⟨e, first, h⟩ := Except.bind_eq_ok h
    obtain ⟨s, second, h⟩ := Except.bind_eq_ok h
    cases h
    rw [mentions, List.forall_mem_append] at known ⊢
    exact ⟨mentions_resolve here first known.1, mentions_resolve here second known.2⟩
  | quant t _ _, _, h, known => by
    obtain ⟨u, found, rfl⟩ := Except.map_eq_ok h
    exact mentions_resolve (t := t) (u := u) here found known
  | capture _ t, _, h, known => by
    obtain ⟨u, found, rfl⟩ := Except.map_eq_ok h
    rw [mentions, List.forall_mem_cons] at known ⊢
    exact ⟨known.1, mentions_resolve here found known.2⟩
  | backref _ none, _, h, known => by cases h; exact known
  | backref _ (some t), _, h, known => by
    obtain ⟨_, default, rfl⟩ := Except.map_eq_ok h
    obtain ⟨u, found, same⟩ := Except.map_eq_ok (x := t.resolve old new) default
    rw [← same]
    rw [mentions, List.forall_mem_cons] at known ⊢
    exact ⟨known.1, mentions_resolve (t := t) (u := u) here found known.2⟩
  | cut t, _, h, known => by
    obtain ⟨u, found, rfl⟩ := Except.map_eq_ok h
    rw [mentions, List.forall_mem_cons] at known ⊢
    exact ⟨known.1, mentions_resolve here found known.2⟩
  | withRules t _, _, h, known => by
    obtain ⟨u, found, rfl⟩ := Except.map_eq_ok h
    rw [mentions, List.forall_mem_append] at known ⊢
    exact ⟨mentions_resolve here found known.1, known.2⟩

theorem mentionsAll_resolve {old new : String} (here : holds (.reference new)) : ∀ {ts us : List Term},
    resolveAll old new ts = .ok us → (∀ m ∈ mentionsAll ts, holds m) → ∀ m ∈ mentionsAll us, holds m
  | [], _, h, _ => by cases h; nofun
  | t :: ts, _, h, known => by
    obtain ⟨u, first, h⟩ := Except.bind_eq_ok h
    obtain ⟨us, others, h⟩ := Except.bind_eq_ok h
    cases h
    rw [mentionsAll, List.forall_mem_append] at known ⊢
    exact ⟨mentions_resolve here first known.1, mentionsAll_resolve here others known.2⟩
end

end Term

namespace Grammar

open Term

theorem mentions_layerRules (layered : Mention.Layered holds) {name : String}
    (defined : holds (.definition name))
    {count layer : Nat} {ts : List Term} {layers : List (String × Term)}
    (h : layerRules name count layer ts = .ok layers)
    (known : ∀ m ∈ mentionsAll ts, holds m) : ∀ m ∈ mentionsEntries layers, holds m := by
  induction ts generalizing layer layers with
  | nil =>
    cases h
    nofun
  | cons t ts ih =>
    obtain ⟨u, resolved, h⟩ := Except.bind_eq_ok h
    obtain ⟨others, rest, h⟩ := Except.bind_eq_ok h
    cases h
    rw [mentionsAll, List.forall_mem_append] at known
    rw [mentionsEntries, List.forall_mem_cons, List.forall_mem_append]
    exact ⟨layered.definition _ defined,
      mentions_resolve (layered.reference _ defined) resolved known.1, ih rest known.2⟩

theorem mentions_expandRule (layered : Mention.Layered holds) {name : String} {t : Term}
    {layers : List (String × Term)} (h : expandRule name t = .ok layers) (defined : holds (.definition name))
    (known : ∀ m ∈ t.mentions, holds m) : ∀ m ∈ mentionsEntries layers, holds m := by
  cases t with
  | stack ts => exact mentions_layerRules layered defined h known
  | _ =>
    cases h
    rw [mentionsEntries, mentionsEntries, List.append_nil, List.forall_mem_cons]
    exact ⟨defined, known⟩

theorem mentions_addExpanded (layered : Mention.Layered holds) {g result : Grammar} {rules : List (String × Term)}
    (h : addExpanded g rules = .ok result) (known : ∀ m ∈ mentionsEntries g.entries, holds m)
    (known' : ∀ m ∈ mentionsEntries rules, holds m) : ∀ m ∈ mentionsEntries result.entries, holds m := by
  induction rules generalizing g with
  | nil =>
    cases h
    exact known
  | cons rule rules ih =>
    obtain ⟨layers, expanded, h⟩ := Except.bind_eq_ok h
    obtain ⟨next, added, h⟩ := Except.bind_eq_ok h
    rw [mentionsEntries, List.forall_mem_cons, List.forall_mem_append] at known'
    obtain ⟨defined, here, others⟩ := known'
    have fresh := forall_mentionsEntries.mp (mentions_expandRule layered expanded defined here)
    refine ih h (forall_mentionsEntries.mpr fun entry member => ?_) others
    rcases mem_addNew added member with old | new
    · exact forall_mentionsEntries.mp known entry old
    · exact fresh entry new

theorem mentions_eliminateLayers (layered : Mention.Layered holds) {entries : List (String × Term)} {flat : Grammar}
    (h : eliminateLayers ⟨entries⟩ = .ok flat) (known : ∀ m ∈ mentionsEntries entries, holds m) :
    ∀ m ∈ mentionsTable flat, holds m := by
  obtain ⟨flat⟩ := flat
  exact mentions_addExpanded layered h nofun known

mutual
theorem mentions_traverse (layered : Mention.Layered holds) : ∀ {t u : Term}, t.traverse eliminateLocal = .ok u →
    (∀ m ∈ t.mentions, holds m) → ∀ m ∈ u.mentions, holds m
  | .rule _, _, h, known => by cases h; exact known
  | .literal _, _, h, _ => by cases h; nofun
  | .regex _, _, h, _ => by cases h; nofun
  | .seq ts, _, h, known => by
    obtain ⟨us, found, h⟩ := Except.bind_eq_ok h
    cases h
    exact mentionsAll_traverse layered found known
  | .choice ts, _, h, known => by
    obtain ⟨us, found, h⟩ := Except.bind_eq_ok h
    cases h
    exact mentionsAll_traverse layered found known
  | .stack ts, _, h, known => by
    obtain ⟨us, found, h⟩ := Except.bind_eq_ok h
    cases h
    exact mentionsAll_traverse layered found known
  | .list element separator _, _, h, known => by
    obtain ⟨e, first, h⟩ := Except.bind_eq_ok h
    obtain ⟨s, second, h⟩ := Except.bind_eq_ok h
    cases h
    rw [Term.mentions, List.forall_mem_append] at known ⊢
    exact ⟨mentions_traverse layered first known.1, mentions_traverse layered second known.2⟩
  | .quant t _ _, _, h, known => by
    obtain ⟨u, found, h⟩ := Except.bind_eq_ok h
    cases h
    exact mentions_traverse layered (t := t) (u := u) found known
  | .capture _ t, _, h, known => by
    obtain ⟨u, found, h⟩ := Except.bind_eq_ok h
    cases h
    rw [Term.mentions, List.forall_mem_cons] at known ⊢
    exact ⟨known.1, mentions_traverse layered found known.2⟩
  | .backref _ none, _, h, known => by cases h; exact known
  | .backref _ (some t), _, h, known => by
    obtain ⟨_, default, h⟩ := Except.bind_eq_ok h
    obtain ⟨u, found, same⟩ := Except.bind_eq_ok (x := t.traverse eliminateLocal) default
    cases same
    cases h
    rw [Term.mentions, List.forall_mem_cons] at known ⊢
    exact ⟨known.1, mentions_traverse layered (t := t) (u := u) found known.2⟩
  | .cut t, _, h, known => by
    obtain ⟨u, found, h⟩ := Except.bind_eq_ok h
    cases h
    rw [Term.mentions, List.forall_mem_cons] at known ⊢
    exact ⟨known.1, mentions_traverse layered found known.2⟩
  | .withRules t ⟨entries⟩, _, h, known => by
    obtain ⟨u, found, h⟩ := Except.bind_eq_ok h
    obtain ⟨table, second, h⟩ := Except.bind_eq_ok h
    obtain ⟨traversed, found', same⟩ := Except.bind_eq_ok second
    obtain rfl := Except.ok.inj same
    obtain ⟨flat, eliminated, rfl⟩ := eliminateLocal_withRules h
    rw [Term.mentions, List.forall_mem_append] at known ⊢
    have rules := mentionsEntries_traverse layered found' known.2
    exact ⟨mentions_traverse layered found known.1, mentions_eliminateLayers layered eliminated rules⟩

theorem mentionsAll_traverse (layered : Mention.Layered holds) : ∀ {ts us : List Term},
    traverseAll eliminateLocal ts = .ok us → (∀ m ∈ mentionsAll ts, holds m) → ∀ m ∈ mentionsAll us, holds m
  | [], _, h, _ => by cases h; nofun
  | t :: ts, _, h, known => by
    obtain ⟨u, found, h⟩ := Except.bind_eq_ok h
    obtain ⟨us, found', h⟩ := Except.bind_eq_ok h
    cases h
    rw [mentionsAll, List.forall_mem_append] at known ⊢
    exact ⟨mentions_traverse layered found known.1, mentionsAll_traverse layered found' known.2⟩

theorem mentionsEntries_traverse (layered : Mention.Layered holds) : ∀ {entries traversed : List (String × Term)},
    traverseEntries eliminateLocal entries = .ok traversed → (∀ m ∈ mentionsEntries entries, holds m) →
    ∀ m ∈ mentionsEntries traversed, holds m
  | [], _, h, _ => by cases h; nofun
  | (name, t) :: entries, _, h, known => by
    obtain ⟨u, found, h⟩ := Except.bind_eq_ok h
    obtain ⟨rest, found', h⟩ := Except.bind_eq_ok h
    cases h
    rw [mentionsEntries, List.forall_mem_cons, List.forall_mem_append] at known ⊢
    exact ⟨known.1, mentions_traverse layered found known.2.1, mentionsEntries_traverse layered found' known.2.2⟩
end

/-- What holds of all mentions of a grammar, and of the layers of rules with the rules, holds of all mentions of the
grammar without its stacks. -/
theorem mentions_eliminateStacks (layered : Mention.Layered holds) {g flat : Grammar} (h : g.eliminateStacks = .ok flat)
    (known : ∀ m ∈ g.mentions, holds m) : ∀ m ∈ flat.mentions, holds m := by
  obtain ⟨entries⟩ := g
  obtain ⟨table, traversed, eliminated⟩ := Except.bind_eq_ok h
  obtain ⟨others, found, same⟩ := Except.bind_eq_ok traversed
  obtain rfl := Except.ok.inj same
  exact mentions_eliminateLayers layered eliminated (mentionsEntries_traverse layered found known)

end Grammar
end Mentions
end GrammarKit
