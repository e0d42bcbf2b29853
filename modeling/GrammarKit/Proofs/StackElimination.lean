/-
Module: GrammarKit.Proofs.StackElimination
Purpose: What the elimination of stacks comes to.  It fails if and only if at some level a layer of a stack has another
  stack in it, or two rules would get the same name.  Otherwise each level becomes one without stacks, whose names are
  those of the layers; no placeholder is left in a layer; and there is nothing to eliminate any more.
Main exports: Grammar.NestsStacks, Term.succeeds_traverse, Term.rel_tables, Grammar.Expands,
  Grammar.eliminateStacks_normal
-/
import Mathlib.Data.Multiset.AddSub
import GrammarKit.Proofs.Expansion
import GrammarKit.Proofs.RuleLevels

namespace GrammarKit

/-! ### Success -/

section Success

variable {ε α β : Type}

/-- A computation that does not fail. -/
def Succeeds (x : Except ε α) : Prop :=
  ∃ a, x = .ok a

theorem succeeds_ok (a : α) : Succeeds (.ok a : Except ε α) :=
  ⟨a, rfl⟩

theorem succeeds_iff_not_error {x : Except ε α} : Succeeds x ↔ ¬ ∃ e, x = .error e := by
  cases x <;> simp [Succeeds]

theorem succeeds_bind {x : Except ε α} {f : α → Except ε β} :
    Succeeds (x >>= f) ↔ ∃ a, x = .ok a ∧ Succeeds (f a) := by
  constructor
  · rintro ⟨b, whole⟩
    obtain ⟨a, first, second⟩ := Except.bind_eq_ok whole
    exact ⟨a, first, b, second⟩
  · rintro ⟨a, rfl, succeeds⟩
    exact succeeds

/-- A second step that cannot fail makes no difference. -/
theorem succeeds_bind_ok {x : Except ε α} {f : α → β} : Succeeds (x >>= fun a => .ok (f a)) ↔ Succeeds x := by
  cases x <;> simp [Succeeds, bind, Except.bind]

/-- Two steps that do not depend on each other. -/
theorem succeeds_both {γ : Type} {x : Except ε α} {y : Except ε β} {f : α → β → γ} :
    Succeeds (x >>= fun a => y >>= fun b => .ok (f a b)) ↔ Succeeds x ∧ Succeeds y := by
  rw [succeeds_bind]
  simp only [succeeds_bind_ok]
  exact ⟨fun ⟨a, first, second⟩ => ⟨⟨a, first⟩, second⟩, fun ⟨⟨a, first⟩, second⟩ => ⟨a, first, second⟩⟩

end Success

/-! ### Layers -/

namespace Term

open Grammar (eliminateLocal Flattens at?_alike alike_resolve alike_traverse exists_stack isStack_traverse
  layers_of_noStack traverseAll_forall₂ getElem?_forall₂)

/-- A term in which references have been replaced had no stack in it. -/
theorem stackFree_of_resolve {old new : String} {t u : Term} (h : t.resolve old new = .ok u) : t.StackFree := by
  intro path inner ts found
  obtain ⟨inner', v, -, resolved, -⟩ := at?_alike alike_resolve h found
  cases resolved

theorem succeeds_resolve {old new : String} {t : Term} : Succeeds (t.resolve old new) ↔ t.StackFree :=
  ⟨fun ⟨_, resolved⟩ => stackFree_of_resolve resolved, fun free => free.resolve old new⟩

/-- Where references have been replaced by others, none of the old ones is left, local rules apart. -/
theorem at?_resolve_ne {old new : String} (other : new ≠ old) {t u : Term} (h : t.resolve old new = .ok u)
    (path : List Nat) (inner : Scope) : u.at? path ≠ some (inner, .rule old) := by
  intro found
  have back : ∀ {u t : Term}, t.resolve old new = .ok u →
      Grammar.Alike (fun u t => t.resolve old new = .ok u) (· = ·) u t := by
    intro u t resolved
    obtain ⟨parts, own⟩ := alike_resolve resolved
    exact ⟨parts.flip, own.flip.imp fun _ _ same => same.symm⟩
  obtain ⟨inner', v, -, resolved, -⟩ := at?_alike back h found
  cases v with
  | rule name =>
    have same := Term.rule.inj (Except.ok.inj resolved)
    split at same
    · exact other same
    · next different => exact different same
  | literal _ | regex _ | stack _ => cases resolved
  | seq _ | choice _ | quant _ _ _ | capture _ _ | backref _ _ | cut _ | withRules _ _ =>
    obtain ⟨_, -, same⟩ := Except.map_eq_ok resolved
    cases same
  | list _ _ _ =>
    obtain ⟨_, -, resolved⟩ := Except.bind_eq_ok resolved
    obtain ⟨_, -, resolved⟩ := Except.bind_eq_ok resolved
    cases resolved

/-- Whether there is a stack in a term does not depend on the stacks of local rules. -/
theorem stackFree_traverse_iff {t u : Term} (traversed : t.traverse eliminateLocal = .ok u) :
    u.StackFree ↔ t.StackFree := by
  refine ⟨fun free path inner ts found => ?_, fun free => free.traverse traversed⟩
  obtain ⟨inner', v, there, same, -⟩ := at?_alike alike_traverse traversed found
  obtain ⟨us, rfl⟩ := exists_stack (isStack_traverse same)
  exact free path inner' us there

/-- The layers of a traversed term are the traversed layers. -/
theorem layers_traverse {t u : Term} (traversed : t.traverse eliminateLocal = .ok u) :
    List.Forall₂ (fun t u => t.traverse eliminateLocal = .ok u) t.layers u.layers := by
  cases stack : t.isStack with
  | true =>
    obtain ⟨ts, rfl⟩ := exists_stack stack
    obtain ⟨us, all, same⟩ := Except.bind_eq_ok traversed
    obtain rfl := Except.ok.inj same
    exact traverseAll_forall₂ all
  | false =>
    rw [layers_of_noStack stack, layers_of_noStack ((isStack_traverse traversed).trans stack)]
    exact .cons traversed .nil

end Term

namespace Grammar

open Term

theorem succeeds_layerRules {name : String} {count layer : Nat} {ts : List Term} :
    Succeeds (layerRules name count layer ts) ↔ ∀ t ∈ ts, t.StackFree := by
  induction ts generalizing layer with
  | nil => exact ⟨fun _ => nofun, fun _ => succeeds_ok _⟩
  | cons t ts ih => rw [layerRules, succeeds_both, succeeds_resolve, ih, List.forall_mem_cons]

theorem names_layerRules {name : String} {count layer : Nat} {ts : List Term} {rules : List (String × Term)}
    (h : layerRules name count layer ts = .ok rules) :
    rules.map (·.1) = (List.range' layer ts.length).map (layerName name) := by
  induction ts generalizing layer rules with
  | nil =>
    cases h
    rfl
  | cons t ts ih =>
    obtain ⟨u, -, h⟩ := Except.bind_eq_ok h
    obtain ⟨rest, others, h⟩ := Except.bind_eq_ok h
    cases h
    rw [List.map_cons, ih others, List.length_cons, List.range'_succ, List.map_cons]

theorem succeeds_expandRule {name : String} {t : Term} :
    Succeeds (expandRule name t) ↔ (t.isStack = true → ∀ layer ∈ t.layers, layer.StackFree) := by
  cases stack : t.isStack with
  | true =>
    obtain ⟨ts, rfl⟩ := exists_stack stack
    exact succeeds_layerRules.trans ⟨fun free _ => free, fun free => free rfl⟩
  | false =>
    rw [expandRule_of_noStack stack]
    exact ⟨fun _ => nofun, fun _ => succeeds_ok _⟩

/-- A rule becomes rules of the names of its layers. -/
theorem names_expandRule {name : String} {t : Term} {rules : List (String × Term)} (h : expandRule name t = .ok rules) :
    rules.map (·.1) = (List.range t.layers.length).map (layerName name) := by
  cases stack : t.isStack with
  | true =>
    obtain ⟨ts, rfl⟩ := exists_stack stack
    rw [names_layerRules h, List.range_eq_range']
    rfl
  | false =>
    rw [expandRule_of_noStack stack] at h
    cases h
    rw [layers_of_noStack stack]
    rfl

/-! ### One level -/

/-- A new entry is put among the others. -/
theorem perm_insertEntry {name : String} {t : Term} {entries : List (String × Term)}
    (new : name ∉ entries.map (·.1)) : (Table.insertEntry name t entries).Perm ((name, t) :: entries) := by
  induction entries with
  | nil => exact .refl _
  | cons entry entries ih =>
    obtain ⟨other, old⟩ := entry
    rw [List.map_cons, List.mem_cons, not_or] at new
    rw [Table.insertEntry, if_neg new.1]
    split
    · exact .refl _
    · exact ((ih new.2).cons _).trans (.swap _ _ _)

theorem contains_iff {g : Grammar} {name : String} : g.contains name = true ↔ name ∈ g.entries.map (·.1) :=
  Table.lookup_isSome

theorem perm_addNew {g result : Grammar} {rules : List (String × Term)} (h : addNew g rules = .ok result) :
    result.entries.Perm (rules ++ g.entries) := by
  induction rules generalizing g with
  | nil =>
    cases h
    exact .refl _
  | cons rule rules ih =>
    obtain ⟨name, t⟩ := rule
    rw [addNew] at h
    split at h
    · cases h
    · next new =>
      rw [contains_iff] at new
      exact (ih h).trans (((perm_insertEntry new).append_left rules).trans List.perm_middle)

/-- New rules can be added if no name occurs twice among them or among the rules that are there. -/
theorem succeeds_addNew {g : Grammar} {rules : List (String × Term)} :
    Succeeds (addNew g rules) ↔
      (rules.map (·.1)).Nodup ∧ ∀ name ∈ rules.map (·.1), g.contains name = false := by
  induction rules generalizing g with
  | nil => exact ⟨fun _ => ⟨List.nodup_nil, List.forall_mem_nil _⟩, fun _ => succeeds_ok _⟩
  | cons rule rules ih =>
    obtain ⟨name, t⟩ := rule
    rw [addNew, List.map_cons, List.nodup_cons, List.forall_mem_cons]
    cases here : g.contains name with
    | true =>
      rw [if_pos rfl]
      constructor
      · rintro ⟨_, failed⟩
        cases failed
      · rintro ⟨-, free, -⟩
        cases free
    | false =>
      have inserted : ∀ other, (g.insert name t).contains other = true ↔ other = name ∨ g.contains other = true := by
        intro other
        have absent : name ∉ g.names := contains_iff.not.mp (by simp [here])
        rw [contains_iff, contains_iff, Table.insert, ((perm_insertEntry absent).map _).mem_iff, List.map_cons,
          List.mem_cons]
      rw [if_neg Bool.false_ne_true, ih]
      constructor
      · rintro ⟨nodup, free⟩
        refine ⟨⟨fun again => ?_, nodup⟩, rfl, fun other member => ?_⟩
        · have clash := (inserted name).mpr (.inl rfl)
          rw [free name again] at clash
          cases clash
        · by_contra there
          have clash := (inserted other).mpr (.inr (Bool.not_eq_false _ ▸ there))
          rw [free other member] at clash
          cases clash
      · rintro ⟨⟨once, nodup⟩, -, free⟩
        refine ⟨nodup, fun other member => ?_⟩
        by_contra there
        rcases (inserted other).mp (Bool.not_eq_false _ ▸ there) with rfl | old
        · exact once member
        · rw [free other member] at old
          cases old

/-- The rules of a table to which expanded ones have been added. -/
theorem perm_addExpanded {g result : Grammar} {rules : List (String × Term)} (h : addExpanded g rules = .ok result) :
    ∃ expanded, List.Forall₂ (fun rule layers => expandRule rule.1 rule.2 = .ok layers) rules expanded ∧
      result.entries.Perm (expanded.flatten ++ g.entries) := by
  induction rules generalizing g with
  | nil =>
    cases h
    exact ⟨[], .nil, .refl _⟩
  | cons rule rules ih =>
    obtain ⟨layers, expands, h⟩ := Except.bind_eq_ok h
    obtain ⟨next, added, h⟩ := Except.bind_eq_ok h
    obtain ⟨expanded, each, together⟩ := ih h
    refine ⟨layers :: expanded, .cons expands each, together.trans ?_⟩
    rw [List.flatten_cons, List.append_assoc]
    exact ((perm_addNew added).append_left _).trans (List.perm_append_comm_assoc _ _ _)

/-- Rules can be expanded and added if each of them can be expanded and no name occurs twice. -/
theorem succeeds_addExpanded {g : Grammar} {rules : List (String × Term)} :
    Succeeds (addExpanded g rules) ↔ (∀ rule ∈ rules, Succeeds (expandRule rule.1 rule.2)) ∧
      (flatNames ⟨rules⟩).Nodup ∧ ∀ name ∈ flatNames ⟨rules⟩, g.contains name = false := by
  induction rules generalizing g with
  | nil => exact ⟨fun _ => ⟨nofun, List.nodup_nil, nofun⟩, fun _ => succeeds_ok _⟩
  | cons rule rules ih =>
    have both : flatNames ⟨rule :: rules⟩
        = (List.range rule.2.layers.length).map (layerName rule.1) ++ flatNames ⟨rules⟩ := List.flatMap_cons
    rw [both, List.forall_mem_cons, List.nodup_append', List.forall_mem_append]
    constructor
    · rintro ⟨result, h⟩
      obtain ⟨layers, expands, h⟩ := Except.bind_eq_ok h
      obtain ⟨next, added, h⟩ := Except.bind_eq_ok h
      obtain ⟨nodup, new⟩ := succeeds_addNew.mp ⟨next, added⟩
      obtain ⟨each, nodup', new'⟩ := ih.mp ⟨result, h⟩
      rw [names_expandRule expands] at nodup new
      have later : ∀ name, next.contains name = false ↔
          name ∉ (List.range rule.2.layers.length).map (layerName rule.1) ∧ g.contains name = false := by
        intro name
        rw [← Bool.not_eq_true, ← Bool.not_eq_true, contains_iff, contains_iff, ← names_expandRule expands,
          ((perm_addNew added).map _).mem_iff, List.map_append, List.mem_append, not_or]
      refine ⟨⟨⟨layers, expands⟩, each⟩, ⟨nodup, nodup', fun name here there => ?_⟩, new, fun name member => ?_⟩
      · exact ((later name).mp (new' name there)).1 here
      · exact ((later name).mp (new' name member)).2
    · rintro ⟨⟨⟨layers, expands⟩, each⟩, ⟨nodup, nodup', apart⟩, new, new'⟩
      have names := names_expandRule expands
      obtain ⟨next, added⟩ := succeeds_addNew.mpr ⟨names ▸ nodup, names ▸ new⟩
      have rest : Succeeds (addExpanded next rules) := by
        refine ih.mpr ⟨each, nodup', fun name member => ?_⟩
        rw [← Bool.not_eq_true, contains_iff, ((perm_addNew added).map _).mem_iff, List.map_append, List.mem_append,
          not_or, names, ← contains_iff, Bool.not_eq_true]
        exact ⟨fun here => apart here member, new' name member⟩
      exact succeeds_bind.mpr ⟨layers, expands, succeeds_bind.mpr ⟨next, added, rest⟩⟩

/-- At this level a rule is bound to a stack, and some layer of it has a stack in it, local rules apart. -/
def NestsStacks (level : Grammar) : Prop :=
  ∃ rule ∈ level.entries, rule.2.isStack = true ∧ ∃ layer ∈ rule.2.layers, ¬ layer.StackFree

/-- The stacks of a level can be expanded. -/
structure Expandable (level : Grammar) : Prop where
  noNesting : ¬ level.NestsStacks
  names : level.flatNames.Nodup

theorem succeeds_eliminateLayers {level : Grammar} : Succeeds (eliminateLayers level) ↔ level.Expandable := by
  have free : (∀ rule ∈ level.entries, Succeeds (expandRule rule.1 rule.2)) ↔ ¬ level.NestsStacks := by
    simp only [succeeds_expandRule, NestsStacks, not_exists, not_and, not_not]
  refine succeeds_addExpanded.trans ?_
  rw [free]
  exact ⟨fun ⟨noNesting, names, _⟩ => ⟨noNesting, names⟩, fun h => ⟨h.noNesting, h.names, fun _ _ => rfl⟩⟩

/-- Expanding the stacks further in does not change whether those of a level can be expanded. -/
theorem expandable_traversed {entries traversed : List (String × Term)}
    (both : List.Forall₂ (fun entry entry' => entry.1 = entry'.1 ∧ entry.2.traverse eliminateLocal = .ok entry'.2)
      entries traversed) : Expandable ⟨traversed⟩ ↔ Expandable ⟨entries⟩ := by
  have names : flatNames ⟨traversed⟩ = flatNames ⟨entries⟩ := by
    induction both with
    | nil => rfl
    | @cons entry entry' _ _ here _ ih =>
      simp only [flatNames, List.flatMap_cons] at ih ⊢
      rw [ih, here.1, (layers_traverse here.2).length_eq]
  have nests : NestsStacks ⟨traversed⟩ ↔ NestsStacks ⟨entries⟩ := by
    simp only [NestsStacks]
    constructor
    · rintro ⟨rule, member, stack, layer, inside, nested⟩
      obtain ⟨i, there⟩ := List.getElem?_of_mem member
      obtain ⟨original, found, -, becomes⟩ := getElem?_forall₂ both.flip there
      obtain ⟨j, there⟩ := List.getElem?_of_mem inside
      obtain ⟨layer', found', traversed⟩ := getElem?_forall₂ (layers_traverse becomes).flip there
      exact ⟨original, List.mem_of_getElem? found, (isStack_traverse becomes).symm.trans stack, layer',
        List.mem_of_getElem? found', fun free => nested ((stackFree_traverse_iff traversed).mpr free)⟩
    · rintro ⟨rule, member, stack, layer, inside, nested⟩
      obtain ⟨i, there⟩ := List.getElem?_of_mem member
      obtain ⟨becoming, found, -, becomes⟩ := getElem?_forall₂ both there
      obtain ⟨j, there⟩ := List.getElem?_of_mem inside
      obtain ⟨layer', found', traversed⟩ := getElem?_forall₂ (layers_traverse becomes) there
      exact ⟨becoming, List.mem_of_getElem? found, (isStack_traverse becomes).trans stack, layer',
        List.mem_of_getElem? found', fun free => nested ((stackFree_traverse_iff traversed).mp free)⟩
  exact ⟨fun h => ⟨nests.not.mp h.noNesting, names ▸ h.names⟩, fun h => ⟨nests.not.mpr h.noNesting, names ▸ h.names⟩⟩

end Grammar

/-! ### All levels -/

namespace Term

open Grammar

mutual
/-- The stacks of local rules in a term can be expanded if those of each table can be. -/
theorem succeeds_traverse : ∀ {t : Term}, Succeeds (t.traverse eliminateLocal) ↔ ∀ level ∈ t.tables, level.Expandable
  | rule _ => ⟨fun _ => nofun, fun _ => succeeds_ok _⟩
  | literal _ => ⟨fun _ => nofun, fun _ => succeeds_ok _⟩
  | regex _ => ⟨fun _ => nofun, fun _ => succeeds_ok _⟩
  | seq ts => succeeds_bind_ok.trans (@succeeds_traverseAll ts)
  | choice ts => succeeds_bind_ok.trans (@succeeds_traverseAll ts)
  | stack ts => succeeds_bind_ok.trans (@succeeds_traverseAll ts)
  | list element separator _ => by
    rw [tables, List.forall_mem_append, ← succeeds_traverse, ← succeeds_traverse]
    exact succeeds_both
  | quant t _ _ => succeeds_bind_ok.trans (succeeds_traverse (t := t))
  | capture _ t => succeeds_bind_ok.trans (succeeds_traverse (t := t))
  | backref _ none => ⟨fun _ => nofun, fun _ => succeeds_ok _⟩
  | backref _ (some t) => succeeds_bind_ok.trans (succeeds_bind_ok.trans (succeeds_traverse (t := t)))
  | cut t => succeeds_bind_ok.trans (succeeds_traverse (t := t))
  | withRules t ⟨entries⟩ => by
    rw [tables, tablesTable, List.forall_mem_append, List.forall_mem_cons, ← succeeds_traverse,
      ← succeeds_traverseEntries]
    constructor
    · rintro ⟨u, h⟩
      obtain ⟨v, first, h⟩ := Except.bind_eq_ok h
      obtain ⟨table, second, h⟩ := Except.bind_eq_ok h
      obtain ⟨traversed, found, second⟩ := Except.bind_eq_ok second
      obtain rfl := Except.ok.inj second
      obtain ⟨flat, eliminated, -⟩ := eliminateLocal_withRules h
      have expandable := succeeds_eliminateLayers.mp ⟨flat, eliminated⟩
      exact ⟨⟨v, first⟩, (expandable_traversed (traverseEntries_forall₂ found)).mp expandable, traversed, found⟩
    · rintro ⟨⟨v, first⟩, expandable, traversed, found⟩
      have expandable := (expandable_traversed (traverseEntries_forall₂ found)).mpr expandable
      obtain ⟨flat, eliminated⟩ := succeeds_eliminateLayers.mpr expandable
      refine ⟨withRules v flat, ?_⟩
      rw [traverse, first, traverseTable, found]
      show (eliminateLayers ⟨traversed⟩).map (withRules v) = _
      rw [eliminated]
      rfl

theorem succeeds_traverseAll : ∀ {ts : List Term},
    Succeeds (traverseAll eliminateLocal ts) ↔ ∀ level ∈ tablesAll ts, level.Expandable
  | [] => ⟨fun _ => nofun, fun _ => succeeds_ok _⟩
  | t :: ts => by
    rw [tablesAll, List.forall_mem_append, ← succeeds_traverse, ← succeeds_traverseAll]
    exact succeeds_both

theorem succeeds_traverseEntries : ∀ {entries : List (String × Term)},
    Succeeds (traverseEntries eliminateLocal entries) ↔ ∀ level ∈ tablesEntries entries, level.Expandable
  | [] => ⟨fun _ => nofun, fun _ => succeeds_ok _⟩
  | (_, t) :: entries => by
    rw [tablesEntries, List.forall_mem_append, ← succeeds_traverse, ← succeeds_traverseEntries]
    exact succeeds_both
end

mutual
/-- Replacing references leaves local rules alone. -/
theorem tables_resolve (old new : String) : ∀ {t u : Term}, t.resolve old new = .ok u → u.tables = t.tables
  | rule _, _, h => by cases h; rfl
  | literal _, _, h => by cases h; rfl
  | regex _, _, h => by cases h; rfl
  | seq ts, _, h => by
    obtain ⟨us, found, rfl⟩ := Except.map_eq_ok h
    exact tables_resolveAll old new found
  | choice ts, _, h => by
    obtain ⟨us, found, rfl⟩ := Except.map_eq_ok h
    exact tables_resolveAll old new found
  | stack _, _, h => by cases h
  | list element separator _, _, h => by
    obtain ⟨e, first, h⟩ := Except.bind_eq_ok h
    obtain ⟨s, second, h⟩ := Except.bind_eq_ok h
    cases h
    rw [tables, tables, tables_resolve old new first, tables_resolve old new second]
  | quant t _ _, _, h => by
    obtain ⟨u, found, rfl⟩ := Except.map_eq_ok h
    exact tables_resolve old new (t := t) (u := u) found
  | capture _ t, _, h => by
    obtain ⟨u, found, rfl⟩ := Except.map_eq_ok h
    exact tables_resolve old new (t := t) (u := u) found
  | backref _ none, _, h => by cases h; rfl
  | backref _ (some t), _, h => by
    obtain ⟨_, default, rfl⟩ := Except.map_eq_ok h
    obtain ⟨u, found, rfl⟩ := Except.map_eq_ok default
    exact tables_resolve old new (t := t) (u := u) found
  | cut t, _, h => by
    obtain ⟨u, found, rfl⟩ := Except.map_eq_ok h
    exact tables_resolve old new (t := t) (u := u) found
  | withRules t _, _, h => by
    obtain ⟨u, found, rfl⟩ := Except.map_eq_ok h
    rw [tables, tables, tables_resolve old new found]

theorem tables_resolveAll (old new : String) : ∀ {ts us : List Term}, resolveAll old new ts = .ok us →
    tablesAll us = tablesAll ts
  | [], _, h => by cases h; rfl
  | t :: ts, _, h => by
    obtain ⟨u, first, h⟩ := Except.bind_eq_ok h
    obtain ⟨us, others, h⟩ := Except.bind_eq_ok h
    cases h
    rw [tablesAll, tablesAll, tables_resolve old new first, tables_resolveAll old new others]
end

theorem tablesEntries_eq_flatMap (entries : List (String × Term)) :
    tablesEntries entries = entries.flatMap (·.2.tables) := by
  induction entries with
  | nil => rfl
  | cons entry entries ih => rw [tablesEntries, ih, List.flatMap_cons]

theorem tables_layerRules {name : String} {count layer : Nat} {ts : List Term} {rules : List (String × Term)}
    (h : layerRules name count layer ts = .ok rules) : tablesEntries rules = tablesAll ts := by
  induction ts generalizing layer rules with
  | nil =>
    cases h
    rfl
  | cons t ts ih =>
    obtain ⟨u, resolved, h⟩ := Except.bind_eq_ok h
    obtain ⟨rest, others, h⟩ := Except.bind_eq_ok h
    cases h
    rw [tablesEntries, tablesAll, ih others, tables_resolve _ _ resolved]

theorem tables_expandRule {name : String} {t : Term} {rules : List (String × Term)}
    (h : expandRule name t = .ok rules) : tablesEntries rules = t.tables := by
  cases stack : t.isStack with
  | true =>
    obtain ⟨ts, rfl⟩ := exists_stack stack
    exact tables_layerRules h
  | false =>
    rw [expandRule_of_noStack stack] at h
    cases h
    rw [tablesEntries, tablesEntries, List.append_nil]

theorem tables_expandRules {rules : List (String × Term)} {expanded : List (List (String × Term))}
    (each : List.Forall₂ (fun rule layers => expandRule rule.1 rule.2 = .ok layers) rules expanded) :
    tablesEntries expanded.flatten = tablesEntries rules := by
  induction each with
  | nil => rfl
  | cons here _ ih =>
    rw [List.flatten_cons, tablesEntries_eq_flatMap, List.flatMap_append, ← tablesEntries_eq_flatMap,
      ← tablesEntries_eq_flatMap, ih, tables_expandRule here, tablesEntries]

/-- Expanding the stacks of a level puts the tables inside it into another order at most. -/
theorem perm_tables_eliminateLayers {entries : List (String × Term)} {flat : Grammar}
    (h : eliminateLayers ⟨entries⟩ = .ok flat) : (tablesEntries flat.entries).Perm (tablesEntries entries) := by
  obtain ⟨expanded, each, together⟩ := perm_addExpanded h
  have same : tablesEntries expanded.flatten = tablesEntries entries := tables_expandRules each
  rw [← same, tablesEntries_eq_flatMap, tablesEntries_eq_flatMap]
  exact (together.trans (.of_eq (List.append_nil _))).flatMap_right _

/-- The tables of the second list are those of the first without their stacks, each once. -/
def FlattensEach (levels flats : List Grammar) : Prop :=
  Multiset.Rel Flattens levels flats

theorem FlattensEach.nil : FlattensEach [] [] :=
  .zero

theorem FlattensEach.append {as bs as' bs' : List Grammar} (h : FlattensEach as bs) (h' : FlattensEach as' bs') :
    FlattensEach (as ++ as') (bs ++ bs') := by
  rw [FlattensEach, ← Multiset.coe_add, ← Multiset.coe_add]
  exact h.add h'

/-- A level with all levels inside it. -/
theorem FlattensEach.level {entries traversed : List (String × Term)} {flat : Grammar}
    (found : traverseEntries eliminateLocal entries = .ok traversed)
    (eliminated : eliminateLayers ⟨traversed⟩ = .ok flat)
    (inside : FlattensEach (tablesEntries entries) (tablesEntries traversed)) :
    FlattensEach (tablesTable ⟨entries⟩) (tablesTable flat) := by
  obtain ⟨rules⟩ := flat
  have flattens : Flattens ⟨entries⟩ ⟨rules⟩ := by
    rw [Flattens, eliminateStacks, Grammar.traverse, traverseTable, found]
    exact eliminated
  have order : (tablesEntries rules : Multiset Grammar) = tablesEntries traversed :=
    Multiset.coe_eq_coe.mpr (perm_tables_eliminateLayers eliminated)
  rw [tablesTable, tablesTable, FlattensEach, ← Multiset.cons_coe, ← Multiset.cons_coe, order]
  exact .cons flattens inside

mutual
theorem flattensEach_traverse : ∀ {t u : Term}, t.traverse eliminateLocal = .ok u → FlattensEach t.tables u.tables
  | rule _, _, h => by cases h; exact .nil
  | literal _, _, h => by cases h; exact .nil
  | regex _, _, h => by cases h; exact .nil
  | seq ts, _, h => by
    obtain ⟨us, found, h⟩ := Except.bind_eq_ok h
    cases h
    exact flattensEach_traverseAll found
  | choice ts, _, h => by
    obtain ⟨us, found, h⟩ := Except.bind_eq_ok h
    cases h
    exact flattensEach_traverseAll found
  | stack ts, _, h => by
    obtain ⟨us, found, h⟩ := Except.bind_eq_ok h
    cases h
    exact flattensEach_traverseAll found
  | list element separator _, _, h => by
    obtain ⟨e, first, h⟩ := Except.bind_eq_ok h
    obtain ⟨s, second, h⟩ := Except.bind_eq_ok h
    cases h
    exact (flattensEach_traverse first).append (flattensEach_traverse second)
  | quant t _ _, _, h => by
    obtain ⟨u, found, h⟩ := Except.bind_eq_ok h
    cases h
    exact flattensEach_traverse (t := t) (u := u) found
  | capture _ t, _, h => by
    obtain ⟨u, found, h⟩ := Except.bind_eq_ok h
    cases h
    exact flattensEach_traverse (t := t) (u := u) found
  | backref _ none, _, h => by cases h; exact .nil
  | backref _ (some t), _, h => by
    obtain ⟨_, default, h⟩ := Except.bind_eq_ok h
    obtain ⟨u, found, default⟩ := Except.bind_eq_ok default
    cases default
    cases h
    exact flattensEach_traverse (t := t) (u := u) found
  | cut t, _, h => by
    obtain ⟨u, found, h⟩ := Except.bind_eq_ok h
    cases h
    exact flattensEach_traverse (t := t) (u := u) found
  | withRules t ⟨entries⟩, _, h => by
    obtain ⟨u, first, h⟩ := Except.bind_eq_ok h
    obtain ⟨table, second, h⟩ := Except.bind_eq_ok h
    obtain ⟨traversed, found, second⟩ := Except.bind_eq_ok second
    obtain rfl := Except.ok.inj second
    obtain ⟨flat, eliminated, rfl⟩ := eliminateLocal_withRules h
    exact (flattensEach_traverse first).append (.level found eliminated (flattensEach_traverseEntries found))

theorem flattensEach_traverseAll : ∀ {ts us : List Term}, traverseAll eliminateLocal ts = .ok us →
    FlattensEach (tablesAll ts) (tablesAll us)
  | [], _, h => by cases h; exact .nil
  | t :: ts, _, h => by
    obtain ⟨u, first, h⟩ := Except.bind_eq_ok h
    obtain ⟨us, others, h⟩ := Except.bind_eq_ok h
    cases h
    exact (flattensEach_traverse first).append (flattensEach_traverseAll others)

theorem flattensEach_traverseEntries : ∀ {entries traversed : List (String × Term)},
    traverseEntries eliminateLocal entries = .ok traversed →
    FlattensEach (tablesEntries entries) (tablesEntries traversed)
  | [], _, h => by cases h; exact .nil
  | (name, t) :: entries, _, h => by
    obtain ⟨u, first, h⟩ := Except.bind_eq_ok h
    obtain ⟨rest, others, h⟩ := Except.bind_eq_ok h
    cases h
    exact (flattensEach_traverse first).append (flattensEach_traverseEntries others)
end

end Term

namespace Grammar

open Term

/-- The stacks of a grammar can be expanded if those of each level can be. -/
theorem succeeds_eliminateStacks {g : Grammar} : Succeeds g.eliminateStacks ↔ ∀ level ∈ g.levels, level.Expandable := by
  obtain ⟨entries⟩ := g
  rw [levels, tablesTable, List.forall_mem_cons, ← succeeds_traverseEntries]
  constructor
  · rintro ⟨flat, h⟩
    obtain ⟨table, traverses, eliminated⟩ := Except.bind_eq_ok h
    obtain ⟨traversed, found, same⟩ := Except.bind_eq_ok (x := traverseEntries eliminateLocal entries) traverses
    obtain rfl := Except.ok.inj same
    have expandable := succeeds_eliminateLayers.mp ⟨flat, eliminated⟩
    exact ⟨(expandable_traversed (traverseEntries_forall₂ found)).mp expandable, traversed, found⟩
  · rintro ⟨expandable, traversed, found⟩
    have expandable := (expandable_traversed (traverseEntries_forall₂ found)).mpr expandable
    obtain ⟨flat, eliminated⟩ := succeeds_eliminateLayers.mpr expandable
    refine ⟨flat, ?_⟩
    rw [eliminateStacks, Grammar.traverse, traverseTable, found]
    exact eliminated

/-- The levels of a grammar without stacks are those of the grammar, each without its stacks. -/
theorem flattensEach_levels {g flat : Grammar} (h : g.eliminateStacks = .ok flat) :
    FlattensEach g.levels flat.levels := by
  obtain ⟨entries⟩ := g
  obtain ⟨table, traverses, eliminated⟩ := Except.bind_eq_ok h
  obtain ⟨traversed, found, same⟩ := Except.bind_eq_ok (x := traverseEntries eliminateLocal entries) traverses
  obtain rfl := Except.ok.inj same
  exact .level found eliminated (flattensEach_traverseEntries found)

/-- What has been made of a level has no stacks. -/
theorem Flattens.settled {g flat : Grammar} (h : Flattens g flat) : flat.Settled := by
  obtain ⟨traversed, eliminated, -⟩ := h.inv
  refine ⟨eliminateLayers_ordered eliminated, ?_⟩
  rw [hasStacks, List.any_eq_false]
  intro rule member
  obtain ⟨original, -, source⟩ := mem_eliminateLayers eliminated member
  simp [source.isStack]

/-- What becomes of a level.  Its rules are named as the layers of the rules that there were, and in none of them a
placeholder is left, local rules apart, unless the layer that it stands for is itself named like the placeholder. -/
structure Expands (level flat : Grammar) : Prop where
  eliminated : level.eliminateStacks = .ok flat
  noStacks : flat.hasStacks = false
  names : flat.names.Perm level.flatNames
  placeholders : ∀ {name layers i layer}, (name, .stack layers) ∈ level.entries → layers[i]? = some layer →
    ∃ body, flat.get? (layerName name i) = some body ∧ (layerName name ((i + 1) % layers.length) ≠ placeholder →
      ∀ path inner, body.at? path ≠ some (inner, .rule placeholder))

theorem Flattens.expands {g flat : Grammar} (h : Flattens g flat) : g.Expands flat := by
  refine ⟨h, h.settled.noStacks, ?_, ?_⟩
  · obtain ⟨entries⟩ := g
    have expandable := succeeds_eliminateStacks.mp ⟨flat, h⟩ _ List.mem_cons_self
    refine (List.perm_ext_iff_of_nodup h.settled.ordered.nodup expandable.names).mpr fun name => ?_
    rw [← contains_flattens h, contains_iff]
    rfl
  · intro name layers i layer member here
    obtain ⟨body, becomes, found⟩ := h.layer member here
    refine ⟨body, found, fun other path inner => ?_⟩
    obtain ⟨inside, -, resolved⟩ := Except.bind_eq_ok becomes
    exact at?_resolve_ne other resolved path inner

/-- **The elimination of stacks reaches a normal form.**  It fails if and only if at some level a layer of a stack has
another stack in it, or two of the names that rules and layers get are the same.  If it gives a result, then the
levels of the result are those of the grammar, at the same places, each without stacks, with the names of its layers,
and without placeholders in them; and the result stays as it is. -/
theorem eliminateStacks_normal (g : Grammar) :
    ((∃ e, g.eliminateStacks = .error e) ↔ ∃ level ∈ g.levels, level.NestsStacks ∨ ¬ level.flatNames.Nodup) ∧
      ∀ flat, g.eliminateStacks = .ok flat →
        Multiset.Rel Expands g.levels flat.levels ∧
        (∀ sites level outer, Scope.descend sites [g] = some (level :: outer) →
          ∃ level' outer', Scope.descend (sites.map Site.flat) [flat] = some (level' :: outer') ∧
            level.Expands level') ∧
        flat.eliminateStacks = .ok flat := by
  refine ⟨?_, fun flat h => ?_⟩
  · rw [← not_iff_not, ← succeeds_iff_not_error, succeeds_eliminateStacks]
    simp only [not_exists, not_and, not_or, not_not]
    exact forall₂_congr fun level _ => ⟨fun h => ⟨h.noNesting, h.names⟩, fun h => ⟨h.1, h.2⟩⟩
  · have each := flattensEach_levels h
    refine ⟨each.mono fun _ _ _ _ flattens => Flattens.expands flattens, ?_, ?_⟩
    · intro sites level outer place
      obtain ⟨deep, there, both⟩ := Scope.descend_flattens (.cons h .nil) place
      cases both with
      | cons here _ => exact ⟨_, _, there, here.expands⟩
    · refine eliminateStacks_of_settled fun level member => ?_
      obtain ⟨original, -, flattens⟩ := Multiset.exists_mem_of_rel_of_mem (Multiset.rel_flip.mpr each) member
      exact Flattens.settled flattens

/-- Sums of digits with local rules for them, where both levels have a stack. -/
def markedSums : Grammar :=
  .ofList [("sum", .stack [
    .list (.rule placeholder) (.literal "+") {},
    .withRules (.rule "digit")
      (.ofList [("digit", .stack [.seq [.rule placeholder, .literal "!"], .regex "[0-9]"])])])]

theorem eliminateStacks_normal_markedSums : ∃ flat, markedSums.eliminateStacks = .ok flat ∧
    Multiset.Rel Expands markedSums.levels flat.levels ∧ flat.eliminateStacks = .ok flat ∧
    flat.names = ["sum", "sum@1"] := by
  obtain ⟨flat, h, names⟩ : ∃ flat, markedSums.eliminateStacks = .ok flat ∧ flat.names = ["sum", "sum@1"] :=
    ⟨_, rfl, rfl⟩
  obtain ⟨-, normal⟩ := eliminateStacks_normal markedSums
  obtain ⟨each, -, same⟩ := normal flat h
  exact ⟨flat, h, each, same, names⟩

/-- A rule that is named like the second layer of a stack stops the elimination. -/
example : (eliminateStacks (markedSums.insert "sum@1" (.literal "1"))).isOk = false := by
  decide +kernel

end Grammar
end GrammarKit
