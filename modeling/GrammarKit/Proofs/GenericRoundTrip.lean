/-
Module: GrammarKit.Proofs.GenericRoundTrip
Purpose: Trees survive the way to generic trees and back.  The root of a generic tree keeps the name of its
  rule in a field of its own, so the way back finds the rule by itself; this asks that no rule, capture or
  back reference of the grammar claims that field.
Main exports: Parsers.ofGeneric_toGeneric
-/
import GrammarKit.Proofs.Bridge
import GrammarKit.Proofs.LayerNames

namespace GrammarKit

open Generic Generic.Counters

/-! ### The field of the rule -/

theorem plain_ruleField : Plain ruleField := by
  intro digits base split
  have ending : ruleField.toList.reverse = ['e', 'l', 'u', 'r', '@'] := by decide
  rw [ending] at split
  cases digits with
  | nil => exact absurd (List.cons.inj split).1 (by decide)
  | cons d digits =>
    obtain ⟨rfl, -⟩ := List.cons.inj split
    exact ⟨'e', List.mem_cons_self, by decide⟩

/-- No name that a feature introduces belongs to a rule that is called like the field of the rule. -/
def Feature.Unreserved (f : Feature) : Prop :=
  ∀ name ∈ f.names, baseName name ≠ ruleField

theorem ne_ruleField {name : String} (unreserved : baseName name ≠ ruleField) : name ≠ ruleField := by
  rintro rfl
  exact unreserved (baseName_of_plain plain_ruleField)

/-- Without stacks, a grammar does not come to use the field of the rule. -/
theorem Feature.FlatOf.unreserved {features : List Feature} (unreserved : ∀ f ∈ features, f.Unreserved) :
    ∀ {f : Feature}, f.FlatOf features → f.Unreserved
  | rules names, ⟨_, original, member, layers⟩ => by
    intro name inside
    obtain ⟨base, there, layer, rfl⟩ := layers name inside
    exact baseName_layerName_ne plain_ruleField (unreserved _ member base there) layer
  | regex _, member => unreserved _ member
  | quant _ _, member => unreserved _ member
  | capture _, member => unreserved _ member
  | backref _, member => unreserved _ member

namespace Program

variable {d : Draft}

/-- A reference that has been built means a rule of a table in scope. -/
theorem Sees.mem_names {frames : List Surroundings} {scope : Scope} (sees : Sees d frames scope)
    {name : String} {slot : ParserId} (found : Table.lookup name (innermost frames) = some slot) :
    ∃ g ∈ scope, name ∈ g.names := by
  induction sees with
  | outside => cases found
  | @inside _ scope outer _ rules _ names opens _ ih =>
    obtain ⟨locals, same, order, -⟩ := opens.names
    rw [innermost, same, Table.lookup_append, names] at found
    rcases Option.or_eq_some_iff.mp found with here | ⟨-, beyond⟩
    · have member := Table.lookup_isSome.mp (Option.isSome_of_eq_some here)
      rw [order, List.mem_reverse] at member
      exact ⟨rules, List.mem_cons_self, List.mem_of_mem_filter member⟩
    · obtain ⟨g, member, inside⟩ := ih beyond
      exact ⟨g, List.mem_cons_of_mem _ member, inside⟩

mutual
/-- The field of the rule does not occur in a term, given that nothing around the term and in it claims the
field. -/
theorem occurrences_ruleField : ∀ (t : Term) {s frames scope label id}, BuiltAt d s label t id →
    s.names = innermost frames → Sees d frames scope → scope.All Feature.Unreserved →
    (∀ f ∈ t.features, f.Unreserved) → occurrences ruleField t = 0
  | .literal _, _, _, _, _, _, _, _, _, _, _ => by
    rw [occurrences]
    rfl
  | .regex _, _, _, _, _, _, _, _, _, _, _ => by
    rw [occurrences]
    rfl
  | .rule name, _, _, _, _, _, built, names, sees, around, _ => by
    obtain ⟨slot, found, -⟩ := built
    rw [names] at found
    obtain ⟨g, member, inside⟩ := sees.mem_names found
    obtain ⟨entries⟩ := g
    have claimed : Feature.rules (entries.map (·.1)) ∈ Grammar.features ⟨entries⟩ := List.mem_cons_self
    have other := around _ member _ claimed name inside
    rw [occurrences, if_neg (Ne.symm other)]
  | .backref name _, _, _, _, _, _, _, _, _, _, within => by
    have other := ne_ruleField (within _ List.mem_cons_self name List.mem_cons_self)
    rw [occurrences, if_neg (Ne.symm other)]
  | .capture name _, _, _, _, _, _, _, _, _, _, within => by
    have other := ne_ruleField (within _ List.mem_cons_self name List.mem_cons_self)
    rw [occurrences, if_neg (Ne.symm other)]
  | .seq ts, _, _, _, _, _, ⟨_, _, items⟩, names, sees, around, within =>
    occurrencesItems_ruleField ts items names sees around within
  | .choice ts, _, _, _, _, _, ⟨_, _, all⟩, names, sees, around, within => by
    rw [occurrences, occurrencesMost_ruleField ts all names sees around within]
    rfl
  | .list element separator _, _, _, _, _, _, built, names, sees, around, within => by
    obtain ⟨_, _, _, _, -, first, second⟩ := built
    have elements := occurrences_ruleField element first names sees around
      fun f member => within f (List.mem_append_left _ member)
    have separators := occurrences_ruleField separator second names sees around
      fun f member => within f (List.mem_append_right _ member)
    rw [occurrences, elements, separators]
    rfl
  | .quant t _ _, _, _, _, _, _, built, names, sees, around, within => by
    obtain ⟨_, _, -, inner⟩ := built
    have inside := occurrences_ruleField t inner names sees around
      fun f member => within f (List.mem_cons_of_mem _ member)
    rw [occurrences, inside, Nat.mul_zero]
    rfl
  | .cut t, _, _, _, _, _, ⟨_, _, _, inner⟩, names, sees, around, within => by
    rw [occurrences]
    exact occurrences_ruleField t inner names sees around within
  | .withRules t g, _, _, _, _, _, ⟨_, opens, table, inner⟩, names, sees, around, within => by
    rw [occurrences]
    refine occurrences_ruleField t inner rfl (.inside sees names opens table) ?_
      fun f member => within f (List.mem_append_left _ member)
    intro g' member f inside
    rcases List.mem_cons.mp member with rfl | member
    · exact within f (List.mem_append_right _ inside)
    · exact around g' member f inside
  | .stack _, _, _, _, _, _, built, _, _, _, _ => built.elim

theorem occurrencesItems_ruleField : ∀ (ts : List Term) {s frames scope whole items},
    BuiltItems d s whole ts items → s.names = innermost frames → Sees d frames scope →
    scope.All Feature.Unreserved → (∀ f ∈ Term.featuresAll ts, f.Unreserved) →
    occurrencesAll ruleField ts = 0
  | [], _, _, _, _, _, _, _, _, _, _ => rfl
  | t :: ts, _, _, _, _, _ :: _, ⟨_, _, _, here, others⟩, names, sees, around, within => by
    have first := occurrences_ruleField t here names sees around
      fun f member => within f (List.mem_append_left _ member)
    have rest := occurrencesItems_ruleField ts others names sees around
      fun f member => within f (List.mem_append_right _ member)
    rw [occurrencesAll, first, rest]

theorem occurrencesMost_ruleField : ∀ (ts : List Term) {s frames scope whole ids},
    BuiltAll d s whole ts ids → s.names = innermost frames → Sees d frames scope →
    scope.All Feature.Unreserved → (∀ f ∈ Term.featuresAll ts, f.Unreserved) →
    occurrencesMost ruleField ts = 0
  | [], _, _, _, _, _, _, _, _, _, _ => rfl
  | t :: ts, _, _, _, _, _ :: _, ⟨_, here, others⟩, names, sees, around, within => by
    have first := occurrences_ruleField t here names sees around
      fun f member => within f (List.mem_append_left _ member)
    have rest := occurrencesMost_ruleField ts others names sees around
      fun f member => within f (List.mem_append_right _ member)
    rw [occurrencesMost, first, rest]
    rfl
end

end Program

/-! ### The root -/

namespace Generic

/-- The name of the rule is put beside the fields of a branch and taken away again. -/
theorem root_round_trip {root : Branch} (free : root.get? ruleField = none) (m : Mark) :
    ∃ b : Branch, root.add ruleField (.mark m) true = .ok b ∧ b.pull ruleField true = .ok (.mark m, root) ∧
      root.depth ≤ b.depth := by
  have taken := Table.erase_insert free (Field.one (Node.mark m))
  refine ⟨root.insert ruleField (.one (.mark m)), ?_, ?_, ?_⟩
  · rw [Branch.add, free]
    rfl
  · rw [Branch.pull, Table.get?_insert_self]
    show Except.ok (Node.mark m, (root.insert ruleField (.one (.mark m))).erase ruleField) = _
    rw [taken]
  · calc root.depth = Branch.depth ((root.insert ruleField (.one (.mark m))).erase ruleField) := by rw [taken]
      _ ≤ _ := depth_erase_le _ _

end Generic

namespace Parsers

variable {g : Grammar} {options : CompileOptions} {p : Parsers}

/-- In a compiled grammar nothing claims the field of the rule if nothing in the grammar does. -/
theorem unreserved_compile (compiled : g.compile options = .ok p)
    (names : ∀ name ∈ g.featureNames, baseName name ≠ ruleField) :
    ∀ f ∈ p.flat.features, f.Unreserved := by
  have original : ∀ f ∈ g.features, f.Unreserved :=
    fun f member name inside => names name (List.mem_flatMap.mpr ⟨f, member, inside⟩)
  exact fun f member => (Grammar.features_compile compiled f member).unreserved original

/-- **Generic trees lose nothing.**  Let a grammar be compiled with validation, and let no rule, capture or
back reference in it belong to a rule that is called like the field of the rule.  Then every tree that a
parse gives has a generic tree, which converts back to the very same tree. -/
theorem ofGeneric_toGeneric (compiled : g.compile options = .ok p) (validated : options.validate = true)
    (names : ∀ name ∈ g.featureNames, baseName name ≠ ruleField) {rule : String} {input : Slice}
    {tree : Tree} (parsed : (∃ rest, p.parsePartial rule input = .ok (tree, rest)) ∨
      p.parse rule input = .ok tree) :
    ∃ b, p.toGeneric rule tree = .ok b ∧ p.ofGeneric b = .ok tree := by
  have parsed : ∃ rest, p.parsePartial rule input = .ok (tree, rest) := by
    rcases parsed with parsed | parsed
    · exact parsed
    · obtain ⟨rest, parsed, -⟩ := parsePartial_of_parse parsed
      exact ⟨rest, parsed⟩
  obtain ⟨rest, parsed⟩ := parsed
  obtain ⟨noPadding, body, value, shaped⟩ := shaped_of_parsePartial compiled validated parsed
  obtain ⟨-, root, made, absent, remade⟩ := bridgedRule_of_shaped _ shaped
  have never : occurrences ruleField body = 0 := by
    have unreserved := unreserved_compile compiled names
    obtain ⟨slot, found, -⟩ := derives_of_parsePartial parsed
    obtain ⟨body', s, id, -, value', -, -, built, sees⟩ := start_of_rule compiled found
    obtain rfl := Option.some.inj (value.symm.trans value')
    refine Program.occurrences_ruleField body built rfl sees ?_ fun f member =>
      unreserved f (Grammar.features_of_get? value noPadding member)
    intro g' member f inside
    exact unreserved f (List.mem_singleton.mp member ▸ inside)
  obtain ⟨b, added, pulled, deep⟩ := root_round_trip (absent ruleField never) (.rule rule)
  refine ⟨b, ?_, ?_⟩
  · rw [toGeneric, Grammar.flatToGeneric, if_neg noPadding, value]
    show (ofRule (p.flat.walkFuel tree) [p.flat] body tree >>= _) = _
    rw [made]
    show lift (root.add ruleField (.mark (.rule rule)) true) = _
    rw [added]
    rfl
  · have back := remade (b.depth + 1) (Nat.le_succ_of_le deep)
    rw [ofGeneric, Grammar.flatOfGeneric, pulled]
    simp only [lift, Except.mapError, bind, Except.bind, if_neg noPadding, value]
    exact back

/-- Sums of products of digits, both of which group to the left. -/
def sums : Grammar :=
  ⟨[("sum", .stack [.list (.rule placeholder) (.literal "+") { assoc := .leftToRight },
    .list (.rule placeholder) (.literal "*") { assoc := .leftToRight }, .regex "[0-9]"])]⟩

theorem ofGeneric_toGeneric_sums : ∃ p tree, sums.compile {} = .ok p ∧
    p.parse "sum" (.ofText "1+2*3+4") = .ok tree ∧
    ∃ b, p.toGeneric "sum" tree = .ok b ∧ p.ofGeneric b = .ok tree := by
  have runs : (sums.compile {} >>= fun p => p.parse "sum" (.ofText "1+2*3+4")).isOk = true := by
    decide +kernel
  cases result : sums.compile {} >>= fun p => p.parse "sum" (.ofText "1+2*3+4") with
  | error e =>
    rw [result] at runs
    cases runs
  | ok tree =>
    obtain ⟨p, compiled, parsed⟩ := Except.bind_eq_ok result
    have names : ∀ name ∈ sums.featureNames, baseName name ≠ ruleField := by
      intro name member
      have plain : ∀ name ∈ sums.featureNames, '@' ∉ name.toList ∧ name ≠ ruleField := by decide +kernel
      rw [baseName_of_plain (plain_of_not_mem (plain name member).1)]
      exact (plain name member).2
    exact ⟨p, tree, compiled, parsed, ofGeneric_toGeneric compiled rfl names (.inr parsed)⟩

end Parsers
end GrammarKit
