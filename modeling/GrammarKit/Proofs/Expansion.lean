/-
Module: GrammarKit.Proofs.Expansion
Purpose: The stacks of checked grammars can be expanded.  In a term without violations there is no stack but
  directly below local rules, so that the expansion of a grammar whose rules are checked meets none where a
  placeholder is to be replaced, and the only error left is that of names that clash.  The padding rule is
  not checked and has to be plain.
Main exports: Grammar.Regular, Grammar.regular_withCutpoints, stackFree_of_violations,
  Grammar.eliminateStacks_onlyClashes
-/
import GrammarKit.Proofs.StackHygiene
import GrammarKit.Proofs.Validity

namespace GrammarKit

/-! ### Regular grammars -/

namespace Term

mutual
/-- Whether nothing in a term refers to the padding rule, its padding rules are plain, and its stacks have
layers. -/
def regular : Term → Bool
  | rule name => name ≠ paddingRule
  | literal _ => true
  | regex _ => true
  | seq ts => regularAll ts
  | choice ts => regularAll ts
  | stack ts => regularAll ts
  | list element separator _ => regular element && regular separator
  | quant t _ _ => regular t
  | capture _ t => regular t
  | backref _ default => regularDefault default
  | cut t => regular t
  | withRules t rules => regular t && regularTable rules

/-- Whether several terms are regular. -/
def regularAll : List Term → Bool
  | [] => true
  | t :: ts => regular t && regularAll ts

/-- Whether a default is regular. -/
def regularDefault : Option Term → Bool
  | none => true
  | some t => regular t

/-- Whether the rules of a table are regular. -/
def regularTable : Table Term → Bool
  | ⟨entries⟩ => regularEntries entries

/-- Whether the rules among some entries are regular.  A padding rule is plain if it is no stack and has no
local rules. -/
def regularEntries : List (String × Term) → Bool
  | [] => true
  | (name, t) :: entries =>
      (if name = paddingRule then !t.isStack && t.ruleCount == 0
        else !t.layers.isEmpty && regular t) && regularEntries entries
end

end Term

/-- A grammar in which nothing refers to the padding rule, each padding rule is no stack and has no local
rules, and no rule is bound to a stack without layers; all this at any depth. -/
def Grammar.Regular (g : Grammar) : Prop :=
  Term.regularTable g = true

instance (g : Grammar) : Decidable g.Regular :=
  inferInstanceAs (Decidable (_ = true))

/-! ### Cutpoints -/

namespace Term

/-- A function on terms that only adds and removes cutpoints around a term. -/
structure MovesCuts (f : Term → Term) : Prop where
  regular : ∀ t, (f t).regular = t.regular
  ruleCount : ∀ t, (f t).ruleCount = t.ruleCount
  isStack : ∀ t, (f t).isStack = t.isStack
  isEmpty : ∀ t, (f t).layers.isEmpty = t.layers.isEmpty

theorem movesCuts_cutLiteral (unique : List String) : MovesCuts (cutLiteral unique) := by
  constructor <;> intro t <;> unfold cutLiteral <;> split <;> try split
  all_goals rfl

section Transform

variable {f : Term → Term}

mutual
theorem ruleCount_transform (moves : MovesCuts f) : ∀ t : Term, (t.transform f).ruleCount = t.ruleCount
  | rule _ => by rw [transform, moves.ruleCount]
  | literal _ => by rw [transform, moves.ruleCount]
  | regex _ => by rw [transform, moves.ruleCount]
  | seq ts => by rw [transform, moves.ruleCount, ruleCount, ruleCount, ruleCountAll_transform moves ts]
  | choice ts => by rw [transform, moves.ruleCount, ruleCount, ruleCount, ruleCountAll_transform moves ts]
  | stack ts => by rw [transform, moves.ruleCount, ruleCount, ruleCount, ruleCountAll_transform moves ts]
  | list element separator _ => by
    rw [transform, moves.ruleCount, ruleCount, ruleCount, ruleCount_transform moves element,
      ruleCount_transform moves separator]
  | quant t _ _ => by rw [transform, moves.ruleCount, ruleCount, ruleCount, ruleCount_transform moves t]
  | capture _ t => by rw [transform, moves.ruleCount, ruleCount, ruleCount, ruleCount_transform moves t]
  | backref _ none => by rw [transform, moves.ruleCount, transformDefault]
  | backref _ (some t) => by
    rw [transform, moves.ruleCount, transformDefault, ruleCount, ruleCount, ruleCountDefault, ruleCountDefault,
      ruleCount_transform moves t]
  | cut t => by rw [transform, moves.ruleCount, ruleCount, ruleCount, ruleCount_transform moves t]
  | withRules t ⟨entries⟩ => by
    rw [transform, moves.ruleCount, transformTable, ruleCount, ruleCount, ruleCountTable, ruleCountTable,
      ruleCount_transform moves t, ruleCountEntries_transform moves entries]

theorem ruleCountAll_transform (moves : MovesCuts f) :
    ∀ ts : List Term, ruleCountAll (transformAll f ts) = ruleCountAll ts
  | [] => rfl
  | t :: ts => by
    rw [transformAll, ruleCountAll, ruleCountAll, ruleCount_transform moves t, ruleCountAll_transform moves ts]

theorem ruleCountEntries_transform (moves : MovesCuts f) : ∀ entries : List (String × Term),
    ruleCountEntries (transformEntries f entries) = ruleCountEntries entries
  | [] => rfl
  | (_, t) :: entries => by
    rw [transformEntries, ruleCountEntries, ruleCountEntries, ruleCount_transform moves t,
      ruleCountEntries_transform moves entries]
end

theorem isStack_movesCuts (moves : MovesCuts f) (t : Term) : (t.transform f).isStack = t.isStack := by
  cases t <;> rw [transform, moves.isStack] <;> rfl

/-- A stack without layers gets none, and no other term becomes one. -/
theorem isEmpty_layers_transform (moves : MovesCuts f) (t : Term) :
    (t.transform f).layers.isEmpty = t.layers.isEmpty := by
  cases t with
  | stack ts =>
    rw [transform, moves.isEmpty]
    cases ts <;> rfl
  | _ => exact (moves.isEmpty _).trans rfl

mutual
theorem regular_transform (moves : MovesCuts f) : ∀ t : Term, (t.transform f).regular = t.regular
  | rule _ => by rw [transform, moves.regular]
  | literal _ => by rw [transform, moves.regular]
  | regex _ => by rw [transform, moves.regular]
  | seq ts => by rw [transform, moves.regular, regular, regular, regularAll_transform moves ts]
  | choice ts => by rw [transform, moves.regular, regular, regular, regularAll_transform moves ts]
  | stack ts => by rw [transform, moves.regular, regular, regular, regularAll_transform moves ts]
  | list element separator _ => by
    rw [transform, moves.regular, regular, regular, regular_transform moves element,
      regular_transform moves separator]
  | quant t _ _ => by rw [transform, moves.regular, regular, regular, regular_transform moves t]
  | capture _ t => by rw [transform, moves.regular, regular, regular, regular_transform moves t]
  | backref _ none => by rw [transform, moves.regular, transformDefault]
  | backref _ (some t) => by
    rw [transform, moves.regular, transformDefault, regular, regular, regularDefault, regularDefault,
      regular_transform moves t]
  | cut t => by rw [transform, moves.regular, regular, regular, regular_transform moves t]
  | withRules t ⟨entries⟩ => by
    rw [transform, moves.regular, transformTable, regular, regular, regularTable, regularTable,
      regular_transform moves t, regularEntries_transform moves entries]

theorem regularAll_transform (moves : MovesCuts f) :
    ∀ ts : List Term, regularAll (transformAll f ts) = regularAll ts
  | [] => rfl
  | t :: ts => by
    rw [transformAll, regularAll, regularAll, regular_transform moves t, regularAll_transform moves ts]

theorem regularEntries_transform (moves : MovesCuts f) : ∀ entries : List (String × Term),
    regularEntries (transformEntries f entries) = regularEntries entries
  | [] => rfl
  | (_, t) :: entries => by
    rw [transformEntries, regularEntries, regularEntries, regular_transform moves t, isStack_movesCuts moves t,
      ruleCount_transform moves t, isEmpty_layers_transform moves t, regularEntries_transform moves entries]
end

end Transform

theorem regularEntries_iff {entries : List (String × Term)} : regularEntries entries = true ↔
    ∀ rule ∈ entries, if rule.1 = paddingRule then rule.2.isStack = false ∧ rule.2.ruleCount = 0
      else rule.2.layers ≠ [] ∧ rule.2.regular = true := by
  induction entries with
  | nil => simp [regularEntries]
  | cons rule entries ih =>
    rw [regularEntries, Bool.and_eq_true, ih, List.forall_mem_cons]
    split <;> simp

end Term

/-- Automatic cutpoints leave a regular grammar regular. -/
theorem Grammar.regular_withCutpoints {g : Grammar} (h : g.Regular) : g.withCutpoints.Regular := by
  obtain ⟨entries⟩ := g
  have moves := Term.movesCuts_cutLiteral (Grammar.uniqueLiterals ⟨entries⟩)
  have each := Term.regularEntries_iff.mp h
  apply Term.regularEntries_iff.mpr
  intro rule member
  obtain ⟨⟨name, t⟩, there, rfl⟩ := List.mem_map.mp member
  have here := each _ there
  by_cases padding : name = paddingRule
  · simpa only [if_pos padding] using here
  · simp only [if_neg padding] at here ⊢
    rw [Term.regular_transform moves]
    constructor
    · rw [ne_eq, ← List.isEmpty_iff, Term.isEmpty_layers_transform moves, List.isEmpty_iff]
      exact here.1
    · exact here.2

/-! ### Expanding stacks -/

namespace Term

open Grammar (eliminateLocal Alike Flattens alike_traverse at?_alike exists_stack isStack_traverse)

/-- A term with no stack in it, local rules apart. -/
def StackFree (t : Term) : Prop :=
  ∀ path inner ts, t.at? path ≠ some (inner, stack ts)

theorem StackFree.part {t part : Term} (h : t.StackFree) (member : part ∈ t.parts) : part.StackFree := by
  intro path inner ts found
  obtain ⟨i, here⟩ := List.getElem?_of_mem member
  apply h (i :: path) (inner ++ t.ownRules) ts
  rw [at?, here, Option.bind_some, found, Option.map_some]

theorem violations_item {p : Place} {seen : List String} {ts : List Term} (h : itemViolations p seen ts = [])
    {t : Term} (member : t ∈ ts) : violations p t = [] := by
  induction ts generalizing seen with
  | nil => cases member
  | cons first ts ih =>
    obtain ⟨here, others⟩ := List.append_eq_nil_iff.mp h
    rcases List.mem_cons.mp member with rfl | member
    · exact (List.append_eq_nil_iff.mp here).2
    · exact ih others member

theorem violations_alternative {p : Place} {ts : List Term} (h : violationsAll p ts = []) {t : Term}
    (member : t ∈ ts) : violations p t = [] := by
  induction ts with
  | nil => cases member
  | cons first ts ih =>
    obtain ⟨here, others⟩ := List.append_eq_nil_iff.mp h
    rcases List.mem_cons.mp member with rfl | member
    · exact here
    · exact ih others member

/-- The layers of a rule without violations have none, where the placeholder may stand in them if the rule is
bound to a stack. -/
theorem violations_layer {known : List String} {entries : List (String × Term)}
    (h : entryViolations known entries = []) {rule : String × Term} (member : rule ∈ entries)
    (ne : rule.1 ≠ paddingRule) {layer : Term} (inside : layer ∈ rule.2.layers) :
    violations ⟨rule.1, known, rule.2.isStack⟩ layer = [] := by
  induction entries with
  | nil => cases member
  | cons first entries ih =>
    obtain ⟨name, t⟩ := first
    have split : entryViolations known entries = [] ∧
        (name ≠ paddingRule → ∀ layer ∈ t.layers, violations ⟨name, known, t.isStack⟩ layer = []) := by
      cases t with
      | stack ts =>
        obtain ⟨here, others⟩ := List.append_eq_nil_iff.mp h
        exact ⟨others, fun _ layer inside => violations_alternative here inside⟩
      | _ =>
        obtain ⟨here, others⟩ := List.append_eq_nil_iff.mp h
        refine ⟨others, fun rule layer inside => ?_⟩
        rw [if_neg rule] at here
        obtain rfl := List.mem_singleton.mp inside
        exact here
    rcases List.mem_cons.mp member with rfl | member
    · exact split.2 ne layer inside
    · exact ih split.1 member

theorem entryViolations_tail {known : List String} {rule : String × Term} {entries : List (String × Term)}
    (h : entryViolations known (rule :: entries) = []) : entryViolations known entries = [] := by
  obtain ⟨name, t⟩ := rule
  cases t <;> exact (List.append_eq_nil_iff.mp h).2

/-- The parts of a term without violations have none either, where its own rules can be seen. -/
theorem violations_parts {p : Place} {t part : Term} (h : violations p t = []) (member : part ∈ t.parts) :
    violations { p with known := t.ownRules.flatMap (·.names) ++ p.known } part = [] := by
  cases t with
  | rule _ | literal _ | regex _ => cases member
  | stack _ => cases h
  | seq ts => exact violations_item h member
  | choice ts => exact violations_alternative h member
  | list element separator _ =>
    obtain ⟨first, second⟩ := List.append_eq_nil_iff.mp h
    rcases List.mem_cons.mp member with rfl | member
    · exact first
    · exact List.mem_singleton.mp member ▸ second
  | quant _ _ _ | capture _ _ =>
    obtain rfl := List.mem_singleton.mp member
    exact (List.append_eq_nil_iff.mp h).2
  | backref _ default =>
    cases default with
    | none => cases member
    | some t => exact List.mem_singleton.mp member ▸ h
  | cut t => exact List.mem_singleton.mp member ▸ h
  | withRules t rules =>
    obtain rfl := List.mem_singleton.mp member
    rw [ownRules, List.flatMap_singleton]
    exact (List.append_eq_nil_iff.mp h).2

/-- In a term without violations there is no stack but in local rules. -/
theorem stackFree_of_violations {p : Place} {t : Term} (h : violations p t = []) : t.StackFree := by
  intro path
  induction path generalizing p t with
  | nil =>
    intro inner ts found
    obtain ⟨-, rfl⟩ := Prod.mk.inj (Option.some.inj found)
    cases h
  | cons i path ih =>
    intro inner ts found
    obtain ⟨part, here, below⟩ := Option.bind_eq_some_iff.mp found
    obtain ⟨⟨tables, u⟩, below, same⟩ := Option.map_eq_some_iff.mp below
    obtain ⟨-, rfl⟩ := Prod.mk.inj same
    exact ih (violations_parts h (List.mem_of_getElem? here)) tables ts below

/-- Expanding stacks among local rules leaves the rest of a term without stacks. -/
theorem StackFree.traverse {t u : Term} (h : t.StackFree) (traversed : t.traverse eliminateLocal = .ok u) :
    u.StackFree := by
  intro path inner ts found
  have back : ∀ {t u : Term}, t.traverse eliminateLocal = .ok u →
      Alike (fun u t => t.traverse eliminateLocal = .ok u) (fun flat g => Flattens g flat) u t :=
    fun traversed => ⟨(alike_traverse traversed).1.flip, (alike_traverse traversed).2.flip⟩
  obtain ⟨inner', v, there, same, -⟩ := at?_alike (fun {u t} => back (t := t) (u := u)) traversed found
  obtain ⟨layers, rfl⟩ := exists_stack ((isStack_traverse same).symm.trans rfl)
  exact h path inner' layers there

mutual
/-- Placeholders can be replaced wherever there is no stack. -/
theorem StackFree.resolve (old new : String) : ∀ {t : Term}, t.StackFree → ∃ u, t.resolve old new = .ok u
  | rule _, _ => ⟨_, rfl⟩
  | literal _, _ => ⟨_, rfl⟩
  | regex _, _ => ⟨_, rfl⟩
  | stack ts, h => absurd rfl (h [] [] ts)
  | seq ts, h => by
    obtain ⟨us, found⟩ := StackFree.resolveAll old new ts fun t member => h.part member
    exact ⟨seq us, by rw [Term.resolve, found]; rfl⟩
  | choice ts, h => by
    obtain ⟨us, found⟩ := StackFree.resolveAll old new ts fun t member => h.part member
    exact ⟨choice us, by rw [Term.resolve, found]; rfl⟩
  | list element separator style, h => by
    obtain ⟨e, first⟩ := StackFree.resolve old new (t := element) (h.part List.mem_cons_self)
    obtain ⟨s, second⟩ := StackFree.resolve old new (t := separator) (h.part (.tail _ List.mem_cons_self))
    exact ⟨list e s style, by rw [Term.resolve, first, second]; rfl⟩
  | quant t min max, h => by
    obtain ⟨u, found⟩ := StackFree.resolve old new (t := t) (h.part List.mem_cons_self)
    exact ⟨quant u min max, by rw [Term.resolve, found]; rfl⟩
  | capture name t, h => by
    obtain ⟨u, found⟩ := StackFree.resolve old new (t := t) (h.part List.mem_cons_self)
    exact ⟨capture name u, by rw [Term.resolve, found]; rfl⟩
  | backref name none, _ => ⟨_, rfl⟩
  | backref name (some t), h => by
    obtain ⟨u, found⟩ := StackFree.resolve old new (t := t) (h.part List.mem_cons_self)
    exact ⟨backref name (some u), by rw [Term.resolve, resolveDefault, found]; rfl⟩
  | cut t, h => by
    obtain ⟨u, found⟩ := StackFree.resolve old new (t := t) (h.part List.mem_cons_self)
    exact ⟨cut u, by rw [Term.resolve, found]; rfl⟩
  | withRules t rules, h => by
    obtain ⟨u, found⟩ := StackFree.resolve old new (t := t) (h.part List.mem_cons_self)
    exact ⟨withRules u rules, by rw [Term.resolve, found]; rfl⟩

theorem StackFree.resolveAll (old new : String) : ∀ ts : List Term, (∀ t ∈ ts, t.StackFree) →
    ∃ us, Term.resolveAll old new ts = .ok us
  | [], _ => ⟨[], rfl⟩
  | t :: ts, h => by
    obtain ⟨u, first⟩ := StackFree.resolve old new (h t List.mem_cons_self)
    obtain ⟨us, others⟩ := StackFree.resolveAll old new ts fun t member => h t (.tail _ member)
    exact ⟨u :: us, by rw [Term.resolveAll, first, others]; rfl⟩
end

mutual
/-- Where there are no local rules, no stacks are expanded. -/
theorem traverse_of_ruleCount : ∀ {t : Term}, t.ruleCount = 0 → ∃ u, t.traverse eliminateLocal = .ok u
  | rule _, _ => ⟨_, rfl⟩
  | literal _, _ => ⟨_, rfl⟩
  | regex _, _ => ⟨_, rfl⟩
  | seq ts, free => by
    obtain ⟨us, found⟩ := @traverseAll_of_ruleCount ts free
    exact ⟨seq us, by rw [traverse, found]; rfl⟩
  | choice ts, free => by
    obtain ⟨us, found⟩ := @traverseAll_of_ruleCount ts free
    exact ⟨choice us, by rw [traverse, found]; rfl⟩
  | stack ts, free => by
    obtain ⟨us, found⟩ := @traverseAll_of_ruleCount ts free
    exact ⟨stack us, by rw [traverse, found]; rfl⟩
  | list element separator style, free => by
    obtain ⟨noElement, noSeparator⟩ := Nat.add_eq_zero_iff.mp free
    obtain ⟨e, first⟩ := traverse_of_ruleCount noElement
    obtain ⟨s, second⟩ := traverse_of_ruleCount noSeparator
    exact ⟨list e s style, by rw [traverse, first, second]; rfl⟩
  | quant t min max, free => by
    obtain ⟨u, found⟩ := traverse_of_ruleCount (t := t) free
    exact ⟨quant u min max, by rw [traverse, found]; rfl⟩
  | capture name t, free => by
    obtain ⟨u, found⟩ := traverse_of_ruleCount (t := t) free
    exact ⟨capture name u, by rw [traverse, found]; rfl⟩
  | backref name none, _ => ⟨_, rfl⟩
  | backref name (some t), free => by
    obtain ⟨u, found⟩ := traverse_of_ruleCount (t := t) free
    exact ⟨backref name (some u), by rw [traverse, traverseDefault, found]; rfl⟩
  | cut t, free => by
    obtain ⟨u, found⟩ := traverse_of_ruleCount (t := t) free
    exact ⟨cut u, by rw [traverse, found]; rfl⟩
  | withRules t ⟨[]⟩, free => by
    obtain ⟨u, found⟩ := traverse_of_ruleCount (t := t) free
    exact ⟨withRules u ⟨[]⟩, by rw [traverse, found]; rfl⟩
  | withRules t ⟨(_, _) :: _⟩, free => by
    rw [ruleCount, ruleCountTable, ruleCountEntries] at free
    omega

theorem traverseAll_of_ruleCount : ∀ {ts : List Term}, ruleCountAll ts = 0 →
    ∃ us, traverseAll eliminateLocal ts = .ok us
  | [], _ => ⟨[], rfl⟩
  | t :: ts, free => by
    obtain ⟨here, others⟩ := Nat.add_eq_zero_iff.mp free
    obtain ⟨u, first⟩ := traverse_of_ruleCount here
    obtain ⟨us, rest⟩ := traverseAll_of_ruleCount others
    exact ⟨u :: us, by rw [traverseAll, first, rest]; rfl⟩
end

end Term

/-- A computation that fails, if at all, because two layers have the same name. -/
abbrev OnlyClashes {α : Type} (x : Except StructuralError α) : Prop :=
  Except.FailsOnly (fun e => ∃ name, e = .layerNameClash name) x

namespace Grammar

open Term

theorem layerRules_ok {name : String} {count layer : Nat} {ts : List Term} (free : ∀ t ∈ ts, t.StackFree) :
    ∃ rules, layerRules name count layer ts = .ok rules := by
  induction ts generalizing layer with
  | nil => exact ⟨[], rfl⟩
  | cons t ts ih =>
    obtain ⟨u, first⟩ := (free t List.mem_cons_self).resolve placeholder (layerName name ((layer + 1) % count))
    obtain ⟨rest, others⟩ := @ih (layer + 1) fun t member => free t (.tail _ member)
    exact ⟨(layerName name layer, u) :: rest, by rw [layerRules, first, others]; rfl⟩

theorem addNew_onlyClashes (g : Grammar) (rules : List (String × Term)) : OnlyClashes (addNew g rules) := by
  induction rules generalizing g with
  | nil => exact .ok g
  | cons rule rules ih =>
    rw [addNew]
    split
    · intro e failed
      cases failed
      exact ⟨_, rfl⟩
    · exact ih _

/-- Stacks are expanded without errors, as far as their layers have no stacks in them; what has been
expanded may clash. -/
theorem eliminateLayers_onlyClashes {entries : List (String × Term)}
    (free : ∀ rule ∈ entries, ∀ layers, rule.2 = .stack layers → ∀ t ∈ layers, t.StackFree) :
    OnlyClashes (eliminateLayers ⟨entries⟩) := by
  suffices ∀ g, OnlyClashes (addExpanded g entries) from this _
  induction entries with
  | nil => exact fun g => .ok g
  | cons rule entries ih =>
    intro g
    have expands : ∃ expanded, expandRule rule.1 rule.2 = .ok expanded := by
      cases stack : rule.2.isStack with
      | true =>
        obtain ⟨layers, same⟩ := exists_stack stack
        rw [same]
        exact layerRules_ok (free rule List.mem_cons_self layers same)
      | false => exact ⟨_, expandRule_of_noStack stack⟩
    obtain ⟨expanded, expands⟩ := expands
    have rest := ih fun rule member => free rule (.tail _ member)
    show OnlyClashes (expandRule rule.1 rule.2 >>= fun layers => addNew g layers >>= fun g => addExpanded g entries)
    rw [expands]
    exact (addNew_onlyClashes g expanded).bind fun g' _ => rest g'

/-- What a checked term looks like from outside: it is no stack. -/
theorem valid_layers {p : Place} {t : Term} (h : violations p t = []) :
    ∀ layer ∈ t.layers, violations p layer = [] := by
  cases stack : t.isStack with
  | true =>
    obtain ⟨ts, rfl⟩ := exists_stack stack
    cases h
  | false =>
    rw [layers_of_noStack stack]
    exact List.forall_mem_singleton.mpr h

/-- The layers of a checked stack have no stacks in them once those of local rules are expanded. -/
theorem stackFree_layers {p : Place} {t u : Term} {layers : List Term}
    (valid : ∀ layer ∈ t.layers, violations p layer = []) (traversed : t.traverse eliminateLocal = .ok u)
    (same : u = .stack layers) : ∀ layer ∈ layers, layer.StackFree := by
  subst same
  obtain ⟨ts, rfl⟩ := exists_stack ((isStack_traverse traversed).symm.trans rfl)
  obtain ⟨us, all, same⟩ := Except.bind_eq_ok traversed
  cases same
  intro layer inside
  obtain ⟨i, there⟩ := List.getElem?_of_mem inside
  obtain ⟨t, original, becomes⟩ := getElem?_forall₂ (traverseAll_forall₂ all).flip there
  exact (stackFree_of_violations (valid t (List.mem_of_getElem? original))).traverse becomes

mutual
/-- Expanding the stacks of the local rules of a checked term, which may be a stack if its layers are checked,
makes no other errors than clashes. -/
theorem traverse_onlyClashes : ∀ (t : Term) {p : Place}, (∀ layer ∈ t.layers, violations p layer = []) →
    t.regular = true → OnlyClashes (t.traverse eliminateLocal)
  | .rule _, _, _, _ => .ok _
  | .literal _, _, _, _ => .ok _
  | .regex _, _, _, _ => .ok _
  | .seq ts, p, h, regular => by
    have valid := fun t member => violations_item (h _ List.mem_cons_self) (t := t) member
    rw [Term.traverse]
    exact (traverseAll_onlyClashes ts valid regular).bind fun _ _ => .ok _
  | .choice ts, p, h, regular => by
    have valid := fun t member => violations_alternative (h _ List.mem_cons_self) (t := t) member
    rw [Term.traverse]
    exact (traverseAll_onlyClashes ts valid regular).bind fun _ _ => .ok _
  | .stack ts, p, h, regular => by
    rw [Term.traverse]
    exact (traverseAll_onlyClashes ts h regular).bind fun _ _ => .ok _
  | .list element separator style, p, h, regular => by
    obtain ⟨first, second⟩ := List.append_eq_nil_iff.mp (h _ List.mem_cons_self)
    obtain ⟨regularElement, regularSeparator⟩ := (Bool.and_eq_true _ _).mp regular
    rw [Term.traverse]
    apply (traverse_onlyClashes element (valid_layers first) regularElement).bind
    intro e _
    exact (traverse_onlyClashes separator (valid_layers second) regularSeparator).bind fun _ _ => .ok _
  | .quant t _ _, p, h, regular => by
    have inner := (List.append_eq_nil_iff.mp (h _ List.mem_cons_self)).2
    rw [Term.traverse]
    exact (traverse_onlyClashes t (valid_layers inner) regular).bind fun _ _ => .ok _
  | .capture _ t, p, h, regular => by
    have inner := (List.append_eq_nil_iff.mp (h _ List.mem_cons_self)).2
    rw [Term.traverse]
    exact (traverse_onlyClashes t (valid_layers inner) regular).bind fun _ _ => .ok _
  | .backref _ none, _, _, _ => .ok _
  | .backref _ (some t), p, h, regular => by
    have inner : violations p t = [] := h (.backref _ (some t)) List.mem_cons_self
    rw [Term.traverse, traverseDefault]
    exact ((traverse_onlyClashes t (valid_layers inner) regular).bind fun _ _ => .ok _).bind fun _ _ => .ok _
  | .cut t, p, h, regular => by
    have inner : violations p t = [] := h (.cut t) List.mem_cons_self
    rw [Term.traverse]
    exact (traverse_onlyClashes t (valid_layers inner) regular).bind fun _ _ => .ok _
  | .withRules t ⟨entries⟩, p, h, regular => by
    obtain ⟨table, inner⟩ := List.append_eq_nil_iff.mp (h _ List.mem_cons_self)
    obtain ⟨regularBody, regularRules⟩ := (Bool.and_eq_true _ _).mp regular
    rw [Term.traverse]
    apply (traverse_onlyClashes t (valid_layers inner) regularBody).bind
    intro body _
    rw [traverseTable]
    obtain ⟨clashes, free⟩ := traverseEntries_onlyClashes entries table regularRules
    apply (clashes.bind fun _ _ => .ok _).bind
    intro rules expanded
    obtain ⟨traversed, found, same⟩ := Except.bind_eq_ok expanded
    obtain rfl := Except.ok.inj same
    exact (eliminateLayers_onlyClashes (free found)).map _

theorem traverseAll_onlyClashes : ∀ (ts : List Term) {p : Place}, (∀ t ∈ ts, violations p t = []) →
    regularAll ts = true → OnlyClashes (traverseAll eliminateLocal ts)
  | [], _, _, _ => .ok _
  | t :: ts, p, h, regular => by
    obtain ⟨here, others⟩ := (Bool.and_eq_true _ _).mp regular
    rw [traverseAll]
    apply (traverse_onlyClashes t (valid_layers (h t List.mem_cons_self)) here).bind
    intro u _
    exact (traverseAll_onlyClashes ts (fun t member => h t (.tail _ member)) others).bind fun _ _ => .ok _

theorem traverseEntries_onlyClashes : ∀ (entries : List (String × Term)) {known : List String},
    entryViolations known entries = [] → regularEntries entries = true →
    OnlyClashes (traverseEntries eliminateLocal entries) ∧
      ∀ {traversed}, traverseEntries eliminateLocal entries = .ok traversed →
        ∀ rule ∈ traversed, ∀ layers, rule.2 = .stack layers → ∀ t ∈ layers, t.StackFree
  | [], _, _, _ => by
    constructor
    · exact .ok _
    · intro traversed h
      cases h
      nofun
  | (name, t) :: entries, known, h, regular => by
    obtain ⟨here, others⟩ := List.forall_mem_cons.mp (regularEntries_iff.mp regular)
    obtain ⟨clashes, free⟩ := traverseEntries_onlyClashes entries (entryViolations_tail h)
      (regularEntries_iff.mpr others)
    have first : OnlyClashes (t.traverse eliminateLocal) ∧ ∀ {u layers}, t.traverse eliminateLocal = .ok u →
        u = .stack layers → ∀ t ∈ layers, t.StackFree := by
      by_cases padding : name = paddingRule
      · rw [if_pos padding] at here
        obtain ⟨u, found⟩ := traverse_of_ruleCount here.2
        constructor
        · rw [found]
          exact .ok u
        · rintro _ layers traversed rfl
          rw [← isStack_traverse traversed] at here
          cases here.1
      · rw [if_neg padding] at here
        have valid : ∀ layer ∈ t.layers, violations ⟨name, known, t.isStack⟩ layer = [] := fun layer inside =>
          violations_layer h List.mem_cons_self padding inside
        exact ⟨traverse_onlyClashes t valid here.2, fun traversed same => stackFree_layers valid traversed same⟩
    constructor
    · rw [traverseEntries]
      exact first.1.bind fun _ _ => clashes.bind fun _ _ => .ok _
    · intro traversed whole
      obtain ⟨u, becomes, whole⟩ := Except.bind_eq_ok whole
      obtain ⟨rest, found, whole⟩ := Except.bind_eq_ok whole
      cases whole
      exact List.forall_mem_cons.mpr ⟨fun layers same => first.2 becomes same, free found⟩
end

/-- Taking the stacks out of a checked grammar makes no other errors than clashes. -/
theorem eliminateStacks_onlyClashes {g : Grammar} (h : g.termViolations = []) (regular : g.Regular) :
    OnlyClashes g.eliminateStacks := by
  obtain ⟨entries⟩ := g
  obtain ⟨clashes, free⟩ := traverseEntries_onlyClashes entries h regular
  apply (clashes.bind fun _ _ => .ok _).bind
  intro rules expanded
  obtain ⟨traversed, found, same⟩ := Except.bind_eq_ok expanded
  obtain rfl := Except.ok.inj same
  exact eliminateLayers_onlyClashes (free found)

end Grammar

end GrammarKit
