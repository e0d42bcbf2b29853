/-
Module: GrammarKit.Proofs.GenericRebuild
Purpose: Generic trees survive the way to concrete trees and back.  A branch from which a tree can be made at all,
  whatever it was made of itself, is the branch of that tree, up to fields that hold nothing: no value in it was
  passed over, used twice or read as something else.
Main exports: Mention.field?, Grammar.toGeneric_ofGeneric
-/
import GrammarKit.Proofs.GenericRoundTrip
import GrammarKit.Proofs.Mentions
import GrammarKit.Proofs.Refilling
import GrammarKit.Proofs.WalkDepth

namespace GrammarKit

open Generic Generic.Counters

/-! ### The field of the rule -/

/-- The field that holds what is mentioned. -/
def Mention.field? : Mention → Option String
  | definition name => some (baseName name)
  | reference name => some (baseName name)
  | capture name => some name
  | backref name => some name
  | cut => none

/-- Layers of a rule do not claim the field of the rule if the rule does not. -/
theorem Mention.layered_unreserved : Mention.Layered fun m => m.field? ≠ some ruleField := by
  have layers {base : String} (layer : Nat) (unreserved : (definition base).field? ≠ some ruleField) :
      some (baseName (layerName base layer)) ≠ some ruleField := by
    intro claimed
    have other := fun same => unreserved (congrArg some same)
    exact baseName_layerName_ne plain_ruleField other layer (Option.some.inj claimed)
  exact ⟨layers, layers⟩

namespace Term

mutual
/-- The field of the rule does not occur in a term in which nothing claims it. -/
theorem occurrences_unreserved : ∀ (t : Term), (∀ m ∈ t.mentions, m.field? ≠ some ruleField) →
    occurrences ruleField t = 0
  | literal _, _ => by
    rw [occurrences]
    rfl
  | regex _, _ => by
    rw [occurrences]
    rfl
  | rule name, free => by
    have other : ruleField ≠ baseName name := fun same => free (.reference name) List.mem_cons_self (same ▸ rfl)
    rw [occurrences, if_neg other]
  | backref name _, free => by
    have other : ruleField ≠ name := fun same => free (.backref name) List.mem_cons_self (same ▸ rfl)
    rw [occurrences, if_neg other]
  | capture name _, free => by
    have other : ruleField ≠ name := fun same => free (.capture name) List.mem_cons_self (same ▸ rfl)
    rw [occurrences, if_neg other]
  | seq ts, free => by
    rw [occurrences]
    exact occurrencesAll_unreserved ts free
  | choice ts, free => by
    rw [occurrences, occurrencesMost_unreserved ts free]
    rfl
  | stack ts, free => by
    rw [occurrences, occurrencesMost_unreserved ts free]
    rfl
  | list element separator _, free => by
    obtain ⟨first, second⟩ := List.forall_mem_append.mp free
    rw [occurrences, occurrences_unreserved element first, occurrences_unreserved separator second]
    rfl
  | quant t _ _, free => by
    rw [occurrences, occurrences_unreserved t free, Nat.mul_zero]
    rfl
  | cut t, free => by
    rw [occurrences]
    exact occurrences_unreserved t (List.forall_mem_cons.mp free).2
  | withRules t _, free => by
    rw [occurrences]
    exact occurrences_unreserved t (List.forall_mem_append.mp free).1

theorem occurrencesAll_unreserved : ∀ (ts : List Term), (∀ m ∈ mentionsAll ts, m.field? ≠ some ruleField) →
    occurrencesAll ruleField ts = 0
  | [], _ => rfl
  | t :: ts, free => by
    obtain ⟨here, others⟩ := List.forall_mem_append.mp free
    rw [occurrencesAll, occurrences_unreserved t here, occurrencesAll_unreserved ts others]

theorem occurrencesMost_unreserved : ∀ (ts : List Term), (∀ m ∈ mentionsAll ts, m.field? ≠ some ruleField) →
    occurrencesMost ruleField ts = 0
  | [], _ => rfl
  | t :: ts, free => by
    obtain ⟨here, others⟩ := List.forall_mem_append.mp free
    rw [occurrencesMost, occurrences_unreserved t here, occurrencesMost_unreserved ts others]
    rfl
end

end Term

/-! ### Roots -/

namespace Generic

/-- A branch that is made again without the field of its rule is made again with it. -/
theorem Branch.prune_insert_erase {b child : Branch} (ordered : b.Ordered) (made : child.Ordered) {name : String}
    (same : child.prune = Branch.prune (b.erase name)) {field : Field Node} (present : b.get? name = some field) :
    Branch.prune (child.insert name field) = b.prune := by
  have inserted := Table.ordered_insert made name field
  apply Table.Ordered.ext (ordered_prune inserted) (ordered_prune ordered)
  intro other
  rw [get?_prune inserted, get?_prune ordered]
  by_cases here : other = name
  · subst here
    rw [offer, offer, Table.get?_insert_self, present]
  · rw [offer, Table.get?_insert_of_ne child here, ← offer, ← get?_prune made, same,
      get?_prune (Table.ordered_erase ordered name), offer, offer, Table.get?_erase_of_ne b here]

end Generic

namespace Grammar

/-- Without stacks, a tree that was made of a branch has that branch, up to fields that hold nothing. -/
theorem flatToGeneric_flatOfGeneric {g : Grammar} (names : ∀ m ∈ g.mentions, m.field? ≠ some ruleField)
    {b : Generic.Branch} (sorted : b.Sorted) {tree : Tree} (rebuilt : g.flatOfGeneric b = .ok tree) :
    ∃ rule b', b.rule? = some rule ∧ g.flatToGeneric rule tree = .ok b' ∧ b'.prune = b.prune := by
  obtain ⟨⟨node, root⟩, pulled, rebuilt⟩ := Except.bind_eq_ok rebuilt
  have pulled := Except.mapError_eq_ok pulled
  split at rebuilt
  · next rule root' same =>
    obtain ⟨rfl, rfl⟩ := Prod.mk.inj same
    obtain ⟨-, present, rfl⟩ : true = true ∧ b.get? ruleField = some (.one (.mark (.rule rule))) ∧
        root = b.erase ruleField := by
      rcases Branch.pull_cases pulled with single | ⟨_, several, -, -⟩
      · exact single
      · cases several
    split at rebuilt
    · next body value =>
      obtain ⟨-, child, made, remade⟩ := refilled_of_toRule (b.depth + 1) (sorted.erase ruleField) rebuilt
      have found : g.get? rule = some body := by
        by_cases padding : rule = paddingRule
        · rw [if_pos padding] at value
          cases value
        · rwa [if_neg padding] at value
      have free : ∀ m ∈ body.mentions, m.field? ≠ some ruleField := by
        obtain ⟨entries⟩ := g
        exact (forall_mentionsEntries.mp names _ (Table.mem_of_lookup found)).2
      have absent : child.get? ruleField = none :=
        remade.absent ruleField (body.occurrences_unreserved free) (Table.get?_erase_self b ruleField)
      refine ⟨rule, child.insert ruleField (.one (.mark (.rule rule))), ?_, ?_, ?_⟩
      · rw [Branch.rule?, Branch.one?, present]
      · rw [flatToGeneric, value]
        show (ofRule (g.walkFuel tree) [g] body tree >>= _) = _
        rw [ofRule_walkFuel found made]
        show lift (child.add ruleField (.mark (.rule rule)) true) = _
        rw [Branch.add, absent]
        rfl
      · exact Branch.prune_insert_erase sorted.ordered remade.ordered remade.same present
    · cases rebuilt
  · cases rebuilt

/-- **Generic trees survive the way to concrete trees and back.**  Let no rule, reference, capture or back reference
of a grammar claim the field of the rule.  If a branch, whatever grammar it comes from, converts to a tree, then it
names a rule, and the generic tree of that tree by that rule is the branch itself, up to fields that hold
nothing. -/
theorem toGeneric_ofGeneric {g : Grammar} (names : ∀ m ∈ g.mentions, m.field? ≠ some ruleField) {b : Generic.Branch}
    (sorted : b.Sorted) {tree : Tree} (rebuilt : g.ofGeneric b = .ok tree) :
    ∃ rule b', b.rule? = some rule ∧ g.toGeneric rule tree = .ok b' ∧ b'.prune = b.prune := by
  obtain ⟨flat, eliminated, rebuilt⟩ := Except.bind_eq_ok rebuilt
  have same := Except.mapError_eq_ok eliminated
  have free := mentions_eliminateStacks Mention.layered_unreserved same names
  obtain ⟨rule, b', named, made, pruned⟩ := flatToGeneric_flatOfGeneric free sorted rebuilt
  refine ⟨rule, b', named, ?_, pruned⟩
  rw [toGeneric, eliminated]
  exact made

/-- Lists of names with numbers. -/
def settings : Grammar :=
  ⟨[("settings", .list
    (.capture "setting" (.seq [.capture "name" (.regex "[a-z]+"), .literal "=",
      .capture "value" (.quant (.regex "[0-9]") 1 0)]))
    (.literal ",") { trailing := true })]⟩

/-- One setting, a comma behind it, and fields without values that no list of settings has. -/
def settingBranch : Generic.Branch :=
  let setting : Generic.Branch := ⟨[("", .one (.leaf (.ofText "="))), ("comments", .many []),
    ("name", .one (.branch ⟨[("", .one (.leaf (.ofText "a")))]⟩)),
    ("value", .one (.branch ⟨[("", .many [.leaf (.ofText "1"), .leaf (.ofText "2")]),
      (countField, .many [.mark (.count 2)])]⟩))]⟩
  ⟨[("", .many [.leaf (.ofText ",")]), (listField, .many [.mark (.list 2 false true)]),
    (ruleField, .one (.mark (.rule "settings"))), ("comments", .many []), ("setting", .many [.branch setting])]⟩

theorem toGeneric_ofGeneric_settings : settingBranch.Sorted ∧ ∃ tree, settings.ofGeneric settingBranch = .ok tree ∧
    ∃ rule b', settingBranch.rule? = some rule ∧ settings.toGeneric rule tree = .ok b' ∧
      b'.prune = settingBranch.prune := by
  have sorted : settingBranch.Sorted := by
    simp only [settingBranch, Branch.Sorted, Node.SortedBranch, Node.SortedFields, Node.SortedField, Node.SortedAll,
      Node.Sorted, Table.Ordered]
    decide
  have names : ∀ m ∈ settings.mentions, m.field? ≠ some ruleField := by
    have defined : baseName "settings" = "settings" := baseName_of_plain (plain_of_not_mem (by decide))
    simp [settings, mentions, Term.mentionsTable, Term.mentionsEntries, Term.mentions, Term.mentionsAll,
      Mention.field?, defined, ruleField]
  have runs : (settings.ofGeneric settingBranch).isOk = true := by decide +kernel
  cases result : settings.ofGeneric settingBranch with
  | error e =>
    rw [result] at runs
    cases runs
  | ok tree => exact ⟨sorted, tree, rfl, toGeneric_ofGeneric names sorted result⟩

end Grammar
end GrammarKit
