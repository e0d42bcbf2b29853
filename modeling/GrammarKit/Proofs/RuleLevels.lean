/-
Module: GrammarKit.Proofs.RuleLevels
Purpose: The levels of a grammar: its own table of rules, and all tables of local rules inside it.  The elimination of
  stacks leaves a grammar alone if every level of it is in the order of its names and has no rule bound to a stack.
Main exports: Term.tables, Grammar.levels, Grammar.Settled, Grammar.eliminateStacks_of_settled
-/
import Mathlib.Tactic.Common
import GrammarKit.Proofs.Features

namespace GrammarKit
namespace Term

mutual
/-- All tables of local rules inside a term, those inside other tables included. -/
def tables : Term → List Grammar
  | rule _ => []
  | literal _ => []
  | regex _ => []
  | seq ts => tablesAll ts
  | choice ts => tablesAll ts
  | stack ts => tablesAll ts
  | list element separator _ => tables element ++ tables separator
  | quant t _ _ => tables t
  | capture _ t => tables t
  | backref _ default => tablesDefault default
  | cut t => tables t
  | withRules t rules => tables t ++ tablesTable rules

/-- All tables of local rules inside several terms. -/
def tablesAll : List Term → List Grammar
  | [] => []
  | t :: ts => tables t ++ tablesAll ts

/-- All tables of local rules inside a default. -/
def tablesDefault : Option Term → List Grammar
  | none => []
  | some t => tables t

/-- A table and all tables of local rules inside it. -/
def tablesTable : Table Term → List Grammar
  | ⟨entries⟩ => ⟨entries⟩ :: tablesEntries entries

/-- All tables of local rules inside some entries. -/
def tablesEntries : List (String × Term) → List Grammar
  | [] => []
  | (_, t) :: entries => tables t ++ tablesEntries entries
end

end Term

namespace Grammar

/-- The levels at which a grammar has rules: the outermost one first. -/
def levels (g : Grammar) : List Grammar :=
  Term.tablesTable g

/-- A level at which there is nothing to eliminate: its names are in order, and none is bound to a stack. -/
structure Settled (level : Grammar) : Prop where
  ordered : level.Ordered
  noStacks : level.hasStacks = false

/-! ### Nothing to eliminate -/

/-- A new rule that comes after all others is put at the end. -/
theorem insertEntry_last {name : String} {t : Term} {entries : List (String × Term)}
    (last : ∀ entry ∈ entries, entry.1 < name) :
    Table.insertEntry name t entries = entries ++ [(name, t)] := by
  induction entries with
  | nil => rfl
  | cons entry entries ih =>
    obtain ⟨other, old⟩ := entry
    have before : other < name := last _ List.mem_cons_self
    rw [Table.insertEntry, if_neg (String.ne_of_lt before).symm, if_neg (String.lt_asymm before),
      ih fun entry member => last entry (.tail _ member)]
    rfl

/-- Rules that are no stacks are added as they are. -/
theorem addExpanded_of_noStacks {entries : List (String × Term)} (noStacks : ∀ rule ∈ entries, rule.2.isStack = false)
    {g : Grammar} (ordered : ((g.entries ++ entries).map (·.1)).Pairwise (· < ·)) :
    g.addExpanded entries = .ok ⟨g.entries ++ entries⟩ := by
  induction entries generalizing g with
  | nil =>
    rw [List.append_nil]
    rfl
  | cons entry entries ih =>
    obtain ⟨name, t⟩ := entry
    obtain ⟨here, others⟩ := List.forall_mem_cons.mp noStacks
    have single : expandRule name t = .ok [(name, t)] := by
      cases t with
      | stack layers => cases here
      | _ => rfl
    have last : ∀ entry ∈ g.entries, entry.1 < name := by
      intro entry member
      rw [List.map_append, List.pairwise_append] at ordered
      exact ordered.2.2 entry.1 (List.mem_map_of_mem member) name List.mem_cons_self
    have new : g.contains name = false := by
      rw [Table.contains, Bool.eq_false_iff, ne_eq, Table.get?, Table.lookup_isSome]
      intro member
      obtain ⟨entry, inside, same⟩ := List.mem_map.mp member
      exact String.lt_irrefl name (same ▸ last entry inside)
    have added : g.addNew [(name, t)] = .ok ⟨g.entries ++ [(name, t)]⟩ := by
      rw [addNew, new, if_neg Bool.false_ne_true, addNew, Table.insert, insertEntry_last last]
    have ordered' : (((⟨g.entries ++ [(name, t)]⟩ : Grammar).entries ++ entries).map (·.1)).Pairwise (· < ·) := by
      rw [List.append_assoc]
      exact ordered
    have rest := ih others ordered'
    rw [List.append_assoc] at rest
    rw [addExpanded, single]
    show (addNew g [(name, t)] >>= fun g => addExpanded g entries) = _
    rw [added]
    exact rest

theorem eliminateLayers_of_settled {level : Grammar} (settled : level.Settled) : level.eliminateLayers = .ok level := by
  have noStacks : ∀ rule ∈ level.entries, rule.2.isStack = false := by
    simpa [hasStacks] using settled.noStacks
  exact addExpanded_of_noStacks (g := Table.empty) noStacks settled.ordered

end Grammar

namespace Term

open Grammar (eliminateLocal)

mutual
/-- A term whose tables are settled is traversed without a change. -/
theorem traverse_of_settled : ∀ {t : Term}, (∀ level ∈ t.tables, level.Settled) → t.traverse eliminateLocal = .ok t
  | rule _, _ => rfl
  | literal _, _ => rfl
  | regex _, _ => rfl
  | seq ts, settled => by
    rw [traverse, traverseAll_of_settled settled]
    rfl
  | choice ts, settled => by
    rw [traverse, traverseAll_of_settled settled]
    rfl
  | stack ts, settled => by
    rw [traverse, traverseAll_of_settled settled]
    rfl
  | list element separator style, settled => by
    obtain ⟨first, second⟩ := List.forall_mem_append.mp settled
    rw [traverse, traverse_of_settled first, traverse_of_settled second]
    rfl
  | quant t _ _, settled => by
    rw [traverse, traverse_of_settled (t := t) settled]
    rfl
  | capture _ t, settled => by
    rw [traverse, traverse_of_settled (t := t) settled]
    rfl
  | backref _ none, _ => rfl
  | backref _ (some t), settled => by
    rw [traverse, traverseDefault, traverse_of_settled (t := t) settled]
    rfl
  | cut t, settled => by
    rw [traverse, traverse_of_settled (t := t) settled]
    rfl
  | withRules t ⟨entries⟩, settled => by
    obtain ⟨inner, table⟩ := List.forall_mem_append.mp settled
    obtain ⟨here, rules⟩ := List.forall_mem_cons.mp table
    rw [traverse, traverse_of_settled inner, traverseTable, traverseEntries_of_settled rules]
    show (Grammar.eliminateLayers ⟨entries⟩).map (withRules t) = _
    rw [Grammar.eliminateLayers_of_settled here]
    rfl

theorem traverseAll_of_settled : ∀ {ts : List Term}, (∀ level ∈ tablesAll ts, level.Settled) →
    traverseAll eliminateLocal ts = .ok ts
  | [], _ => rfl
  | t :: ts, settled => by
    obtain ⟨first, others⟩ := List.forall_mem_append.mp settled
    rw [traverseAll, traverse_of_settled first, traverseAll_of_settled others]
    rfl

theorem traverseEntries_of_settled : ∀ {entries : List (String × Term)},
    (∀ level ∈ tablesEntries entries, level.Settled) →
    traverseEntries eliminateLocal entries = .ok entries
  | [], _ => rfl
  | (name, t) :: entries, settled => by
    obtain ⟨first, others⟩ := List.forall_mem_append.mp settled
    rw [traverseEntries, traverse_of_settled first, traverseEntries_of_settled others]
    rfl
end

end Term

/-- A grammar whose levels are all settled is left as it is. -/
theorem Grammar.eliminateStacks_of_settled {g : Grammar} (settled : ∀ level ∈ g.levels, level.Settled) :
    g.eliminateStacks = .ok g := by
  obtain ⟨entries⟩ := g
  obtain ⟨here, rules⟩ := List.forall_mem_cons.mp settled
  rw [eliminateStacks, Grammar.traverse, Term.traverseTable, Term.traverseEntries_of_settled rules]
  exact eliminateLayers_of_settled here

end GrammarKit
