/-
Module: GrammarKit.Proofs.FlatGrammars
Purpose: Grammars without stacks.  The elimination of stacks has nothing to do for them and gives back the same
  grammar, since the tables of a grammar are kept in the order of their names: every level of them is settled.
Main exports: Term.isFlat, Grammar.eliminateStacks_of_flat, Term.isFlat_eraseCuts
-/
import Mathlib.Tactic.Common
import GrammarKit.Proofs.RuleLevels

namespace GrammarKit
namespace Term

mutual
/-- Whether there is no stack in a term, and the tables in it are in order, as tables are. -/
def isFlat : Term → Bool
  | rule _ => true
  | literal _ => true
  | regex _ => true
  | seq ts => isFlatAll ts
  | choice ts => isFlatAll ts
  | stack _ => false
  | list element separator _ => isFlat element && isFlat separator
  | quant t _ _ => isFlat t
  | capture _ t => isFlat t
  | backref _ default => isFlatDefault default
  | cut t => isFlat t
  | withRules t rules => isFlat t && isFlatTable rules

/-- Whether several terms are flat. -/
def isFlatAll : List Term → Bool
  | [] => true
  | t :: ts => isFlat t && isFlatAll ts

/-- Whether a default is flat. -/
def isFlatDefault : Option Term → Bool
  | none => true
  | some t => isFlat t

/-- Whether a table is in order and its rules are flat. -/
def isFlatTable : Table Term → Bool
  | ⟨entries⟩ => decide ((entries.map (·.1)).Pairwise (· < ·)) && isFlatEntries entries

/-- Whether the rules among some entries are flat. -/
def isFlatEntries : List (String × Term) → Bool
  | [] => true
  | (_, t) :: entries => isFlat t && isFlatEntries entries
end

end Term

namespace Term

theorem isStack_of_flat {t : Term} (flat : t.isFlat = true) : t.isStack = false := by
  cases t with
  | stack ts => cases flat
  | _ => rfl

theorem settled_of_flat {entries : List (String × Term)} (flat : isFlatTable ⟨entries⟩ = true) :
    Grammar.Settled ⟨entries⟩ := by
  obtain ⟨ordered, rules⟩ := (Bool.and_eq_true _ _).mp flat
  rw [decide_eq_true_iff] at ordered
  refine ⟨ordered, ?_⟩
  clear flat ordered
  induction entries with
  | nil => rfl
  | cons entry entries ih =>
    obtain ⟨here, others⟩ := (Bool.and_eq_true _ _).mp rules
    exact Bool.or_eq_false_iff.mpr ⟨isStack_of_flat here, ih others⟩

mutual
/-- In a flat term every level is settled. -/
theorem tables_settled_of_flat : ∀ {t : Term}, t.isFlat = true → ∀ level ∈ t.tables, level.Settled
  | rule _, _ => nofun
  | literal _, _ => nofun
  | regex _, _ => nofun
  | seq ts, flat => @tablesAll_settled_of_flat ts flat
  | choice ts, flat => @tablesAll_settled_of_flat ts flat
  | list _ _ _, flat => by
    obtain ⟨first, second⟩ := (Bool.and_eq_true _ _).mp flat
    exact List.forall_mem_append.mpr ⟨tables_settled_of_flat first, tables_settled_of_flat second⟩
  | quant t _ _, flat => tables_settled_of_flat (t := t) flat
  | capture _ t, flat => tables_settled_of_flat (t := t) flat
  | backref _ none, _ => nofun
  | backref _ (some t), flat => tables_settled_of_flat (t := t) flat
  | cut t, flat => tables_settled_of_flat (t := t) flat
  | withRules t ⟨entries⟩, flat => by
    obtain ⟨inner, table⟩ := (Bool.and_eq_true _ _).mp flat
    have rules := ((Bool.and_eq_true _ _).mp table).2
    exact List.forall_mem_append.mpr ⟨tables_settled_of_flat inner,
      List.forall_mem_cons.mpr ⟨settled_of_flat table, tablesEntries_settled_of_flat rules⟩⟩

theorem tablesAll_settled_of_flat : ∀ {ts : List Term}, isFlatAll ts = true → ∀ level ∈ tablesAll ts, level.Settled
  | [], _ => nofun
  | _ :: _, flat => by
    obtain ⟨first, others⟩ := (Bool.and_eq_true _ _).mp flat
    exact List.forall_mem_append.mpr ⟨tables_settled_of_flat first, tablesAll_settled_of_flat others⟩

theorem tablesEntries_settled_of_flat : ∀ {entries : List (String × Term)}, isFlatEntries entries = true →
    ∀ level ∈ tablesEntries entries, level.Settled
  | [], _ => nofun
  | (_, _) :: _, flat => by
    obtain ⟨first, others⟩ := (Bool.and_eq_true _ _).mp flat
    exact List.forall_mem_append.mpr ⟨tables_settled_of_flat first, tablesEntries_settled_of_flat others⟩
end

/-! ### Without cutpoints -/

mutual
theorem isFlat_eraseCuts : ∀ t : Term, t.eraseCuts.isFlat = t.isFlat
  | rule _ => rfl
  | literal _ => rfl
  | regex _ => rfl
  | seq ts => isFlatAll_eraseCuts ts
  | choice ts => isFlatAll_eraseCuts ts
  | stack _ => rfl
  | list element separator _ => congrArg₂ (· && ·) (isFlat_eraseCuts element) (isFlat_eraseCuts separator)
  | quant t _ _ => isFlat_eraseCuts t
  | capture _ t => isFlat_eraseCuts t
  | backref _ default => isFlatDefault_eraseCuts default
  | cut t => isFlat_eraseCuts t
  | withRules t rules => congrArg₂ (· && ·) (isFlat_eraseCuts t) (isFlatTable_eraseCuts rules)

theorem isFlatAll_eraseCuts : ∀ ts : List Term, isFlatAll (transformAll dropCut ts) = isFlatAll ts
  | [] => rfl
  | t :: ts => congrArg₂ (· && ·) (isFlat_eraseCuts t) (isFlatAll_eraseCuts ts)

theorem isFlatDefault_eraseCuts : ∀ default : Option Term,
    isFlatDefault (transformDefault dropCut default) = isFlatDefault default
  | none => rfl
  | some t => isFlat_eraseCuts t

theorem isFlatTable_eraseCuts : ∀ rules : Table Term, isFlatTable (transformTable dropCut rules) = isFlatTable rules
  | ⟨entries⟩ => by
    rw [transformTable, isFlatTable, isFlatTable, names_transformEntries, isFlatEntries_eraseCuts entries]

theorem isFlatEntries_eraseCuts : ∀ entries : List (String × Term),
    isFlatEntries (transformEntries dropCut entries) = isFlatEntries entries
  | [] => rfl
  | (_, t) :: entries => congrArg₂ (· && ·) (isFlat_eraseCuts t) (isFlatEntries_eraseCuts entries)
end

end Term

/-- Without stacks there is nothing to eliminate. -/
theorem Grammar.eliminateStacks_of_flat {g : Grammar} (flat : Term.isFlatTable g = true) :
    g.eliminateStacks = .ok g := by
  obtain ⟨entries⟩ := g
  have rules := ((Bool.and_eq_true _ _).mp flat).2
  exact eliminateStacks_of_settled (List.forall_mem_cons.mpr
    ⟨Term.settled_of_flat flat, Term.tablesEntries_settled_of_flat rules⟩)

end GrammarKit
