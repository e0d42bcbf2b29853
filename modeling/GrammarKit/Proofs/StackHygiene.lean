/-
Module: GrammarKit.Proofs.StackHygiene
Purpose: What the placeholders of stacks refer to once the stacks are gone.  Places in a grammar are named
  by paths, which lead to the same places in the grammar without stacks.  The reference that took the
  place of a placeholder means the next layer of its own stack exactly if no local rule between the two
  has the name of that layer; a local rule of that name captures it.
Main exports: Term.at?, Scope.descend, Grammar.flatNames, Grammar.placeholder_next,
  Grammar.placeholder_captured
-/
import GrammarKit.Grammar.Scope
import GrammarKit.Proofs.Features

namespace GrammarKit

/-! ### Places -/

namespace Term

/-- The terms of which a term is made.  Local rules are not among them. -/
def parts : Term → List Term
  | rule _ => []
  | literal _ => []
  | regex _ => []
  | seq ts => ts
  | choice ts => ts
  | stack ts => ts
  | list element separator _ => [element, separator]
  | quant t _ _ => [t]
  | capture _ t => [t]
  | backref _ default => default.toList
  | cut t => [t]
  | withRules t _ => [t]

/-- The rules that can be seen in the parts of a term, but not outside of it. -/
def ownRules : Term → Scope
  | withRules _ rules => [rules]
  | _ => []

/-- The term at the end of a path, with the local rules that the path leads past, the innermost first. -/
def at? : List Nat → Term → Option (Scope × Term)
  | [], t => some ([], t)
  | i :: path, t =>
      t.parts[i]?.bind fun part => (at? path part).map fun (inner, u) => (inner ++ t.ownRules, u)

/-- The layers of a term; one that is no stack is a single layer. -/
def layers : Term → List Term
  | stack ts => ts
  | t => [t]

end Term

/-- A place in a grammar: a layer of a rule, and a path in it. -/
structure Site where
  rule : String
  layer : Nat
  path : List Nat
deriving Repr, DecidableEq

/-- The same place without stacks, where each layer is a rule of its own. -/
def Site.flat (s : Site) : Site :=
  ⟨layerName s.rule s.layer, 0, s.path⟩

/-- A layer of the rule of a given name. -/
def Grammar.layer? (g : Grammar) (name : String) (layer : Nat) : Option Term :=
  (g.get? name).bind (·.layers[layer]?)

/-- Go from a grammar into local rules.  Each site leads from one table of rules to a term with local
rules in it, whose table is the next. -/
def Scope.descend : List Site → Scope → Option Scope
  | [], scope => some scope
  | _ :: _, [] => none
  | site :: sites, g :: outer =>
      match (g.layer? site.rule site.layer).bind (·.at? site.path) with
      | some (inner, .withRules _ rules) => descend sites (rules :: inner ++ g :: outer)
      | _ => none

namespace Grammar

open Term

/-- The names that the rules of a grammar have when its stacks are gone. -/
def flatNames (g : Grammar) : List String :=
  g.entries.flatMap fun (name, t) => (List.range t.layers.length).map (layerName name)

/-- What a layer of the rule of a given name and term becomes: the stacks inside of it go first, then, if
the term is a stack, the placeholders of the layer. -/
def expandLayer (name : String) (t : Term) (i : Nat) (layer : Term) : Except StructuralError Term := do
  let layer ← layer.traverse eliminateLocal
  if t.isStack then layer.resolve placeholder (layerName name ((i + 1) % t.layers.length)) else .ok layer

/-- The second grammar is the first one without its stacks. -/
def Flattens (g flat : Grammar) : Prop :=
  g.eliminateStacks = .ok flat

/-! ### What layers become -/

/-- The rules of a table to which new ones have been added. -/
theorem get?_addNew {g result : Grammar} {rules : List (String × Term)} (h : addNew g rules = .ok result)
    {name : String} {t : Term} :
    result.get? name = some t ↔ (name, t) ∈ rules ∨ g.get? name = some t := by
  induction rules generalizing g with
  | nil => cases h; simp
  | cons rule rules ih =>
    obtain ⟨new, u⟩ := rule
    simp only [addNew] at h
    split at h
    · cases h
    · next absent =>
      rw [ih h, List.mem_cons]
      by_cases same : name = new
      · subst same
        have absent : g.get? name = none := by
          rw [← Option.not_isSome_iff_eq_none]
          exact absent
        simp [absent, eq_comm, or_comm]
      · rw [Table.get?_insert_of_ne _ same]
        simp [same]

theorem get?_addExpanded {g result : Grammar} {rules : List (String × Term)}
    (h : addExpanded g rules = .ok result) {name : String} {t : Term} :
    result.get? name = some t ↔
      (∃ original ∈ rules, ∃ expanded, expandRule original.1 original.2 = .ok expanded ∧
        (name, t) ∈ expanded) ∨ g.get? name = some t := by
  induction rules generalizing g with
  | nil => cases h; simp
  | cons rule rules ih =>
    obtain ⟨expanded, expands, h⟩ := Except.bind_eq_ok h
    obtain ⟨next, added, h⟩ := Except.bind_eq_ok h
    rw [ih h, get?_addNew added, List.exists_mem_cons_iff]
    constructor
    · rintro (later | here | old)
      · exact .inl (.inr later)
      · exact .inl (.inl ⟨expanded, expands, here⟩)
      · exact .inr old
    · rintro ((⟨expanded', expands', here⟩ | later) | old)
      · obtain rfl := Except.ok.inj (expands'.symm.trans expands)
        exact .inr (.inl here)
      · exact .inl later
      · exact .inr (.inr old)

/-- Every rule of a table without its stacks has been expanded. -/
theorem addExpanded_expands {g result : Grammar} {rules : List (String × Term)}
    (h : addExpanded g rules = .ok result) {rule : String × Term} (member : rule ∈ rules) :
    ∃ expanded, expandRule rule.1 rule.2 = .ok expanded := by
  induction rules generalizing g with
  | nil => cases member
  | cons first rules ih =>
    obtain ⟨expanded, expands, h⟩ := Except.bind_eq_ok h
    obtain ⟨next, -, h⟩ := Except.bind_eq_ok h
    rcases List.mem_cons.mp member with rfl | member
    · exact ⟨expanded, expands⟩
    · exact ih h member

/-- The rules that a stack becomes are its layers, each with its placeholders replaced. -/
theorem mem_layerRules_iff {name : String} {count layer : Nat} {ts : List Term}
    {rules : List (String × Term)} (h : layerRules name count layer ts = .ok rules) {entry : String × Term} :
    entry ∈ rules ↔ ∃ (i : Nat) (t : Term), ts[i]? = some t ∧ entry.1 = layerName name (layer + i) ∧
      t.resolve placeholder (layerName name ((layer + i + 1) % count)) = .ok entry.2 := by
  induction ts generalizing layer rules with
  | nil => cases h; simp
  | cons t ts ih =>
    obtain ⟨u, resolved, h⟩ := Except.bind_eq_ok h
    obtain ⟨rest, others, h⟩ := Except.bind_eq_ok h
    cases h
    rw [List.mem_cons, ih others]
    constructor
    · rintro (rfl | ⟨i, t', there, named, becomes⟩)
      · exact ⟨0, t, rfl, rfl, resolved⟩
      · exact ⟨i + 1, t', there, by rw [named, Nat.add_right_comm]; rfl,
          by rw [← becomes]; congr 4; omega⟩
    · rintro ⟨i, t', there, named, becomes⟩
      cases i with
      | zero =>
        obtain rfl := Option.some.inj there
        exact .inl (Prod.ext named (Except.ok.inj (becomes.symm.trans resolved)))
      | succ i =>
        exact .inr ⟨i, t', there, by rw [named, Nat.add_right_comm]; rfl,
          by rw [← becomes]; congr 4; omega⟩

theorem layerRules_resolves {name : String} {count layer : Nat} {ts : List Term}
    {rules : List (String × Term)} (h : layerRules name count layer ts = .ok rules) {i : Nat} {t : Term}
    (here : ts[i]? = some t) :
    ∃ u, t.resolve placeholder (layerName name ((layer + i + 1) % count)) = .ok u := by
  induction ts generalizing layer rules i with
  | nil => cases here
  | cons first ts ih =>
    obtain ⟨u, resolved, h⟩ := Except.bind_eq_ok h
    obtain ⟨rest, others, -⟩ := Except.bind_eq_ok h
    cases i with
    | zero =>
      obtain rfl := Option.some.inj here
      exact ⟨u, resolved⟩
    | succ i =>
      obtain ⟨v, resolved⟩ := ih others here
      exact ⟨v, by rw [← resolved]; congr 4; omega⟩

/-! ### Paths -/

theorem traverseAll_forall₂ {ts us : List Term} (h : traverseAll eliminateLocal ts = .ok us) :
    List.Forall₂ (fun t u => t.traverse eliminateLocal = .ok u) ts us := by
  induction ts generalizing us with
  | nil =>
    cases h
    exact .nil
  | cons t ts ih =>
    obtain ⟨u, first, h⟩ := Except.bind_eq_ok h
    obtain ⟨us, others, h⟩ := Except.bind_eq_ok h
    cases h
    exact .cons first (ih others)

theorem resolveAll_forall₂ {old new : String} {ts us : List Term} (h : resolveAll old new ts = .ok us) :
    List.Forall₂ (fun t u => t.resolve old new = .ok u) ts us := by
  induction ts generalizing us with
  | nil =>
    cases h
    exact .nil
  | cons t ts ih =>
    obtain ⟨u, first, h⟩ := Except.bind_eq_ok h
    obtain ⟨us, others, h⟩ := Except.bind_eq_ok h
    cases h
    exact .cons first (ih others)

theorem getElem?_forall₂ {α β : Type} {R : α → β → Prop} {as : List α} {bs : List β}
    (h : List.Forall₂ R as bs) {i : Nat} {a : α} (here : as[i]? = some a) :
    ∃ b, bs[i]? = some b ∧ R a b := by
  obtain ⟨inside, rfl⟩ := List.getElem?_eq_some_iff.mp here
  have inside' : i < bs.length := h.length_eq ▸ inside
  exact ⟨bs[i], List.getElem?_eq_getElem inside', h.get inside inside'⟩

/-- Terms with the same parts up to a relation between terms, whose own rules are the same up to a
relation between grammars. -/
def Alike (R : Term → Term → Prop) (S : Grammar → Grammar → Prop) (t u : Term) : Prop :=
  List.Forall₂ R t.parts u.parts ∧ List.Forall₂ S t.ownRules u.ownRules

/-- Expanding the stacks among local rules keeps the shape of a term. -/
theorem alike_traverse {t u : Term} (h : t.traverse eliminateLocal = .ok u) :
    Alike (fun t u => t.traverse eliminateLocal = .ok u) Flattens t u := by
  cases t with
  | rule _ | literal _ | regex _ => cases h; exact ⟨.nil, .nil⟩
  | seq _ | choice _ | stack _ =>
    obtain ⟨_, found, h⟩ := Except.bind_eq_ok h
    cases h
    exact ⟨traverseAll_forall₂ found, .nil⟩
  | quant _ _ _ | capture _ _ | cut _ =>
    obtain ⟨_, found, h⟩ := Except.bind_eq_ok h
    cases h
    exact ⟨.cons found .nil, .nil⟩
  | backref _ default =>
    obtain ⟨_, found, h⟩ := Except.bind_eq_ok h
    cases h
    cases default with
    | none => cases found; exact ⟨.nil, .nil⟩
    | some d =>
      obtain ⟨_, inside, h⟩ := Except.bind_eq_ok found
      cases h
      exact ⟨.cons inside .nil, .nil⟩
  | list _ _ _ =>
    obtain ⟨_, element, h⟩ := Except.bind_eq_ok h
    obtain ⟨_, separator, h⟩ := Except.bind_eq_ok h
    cases h
    exact ⟨.cons element (.cons separator .nil), .nil⟩
  | withRules _ rules =>
    obtain ⟨_, found, h⟩ := Except.bind_eq_ok h
    obtain ⟨table, traversed, h⟩ := Except.bind_eq_ok h
    obtain ⟨flat, eliminated, rfl⟩ := eliminateLocal_withRules h
    have flattens : Flattens rules flat := by
      rw [Flattens, eliminateStacks, Grammar.traverse, traversed]
      exact eliminated
    exact ⟨.cons found .nil, .cons flattens .nil⟩

/-- Replacing references keeps the shape of a term, and leaves local rules as they are. -/
theorem alike_resolve {old new : String} {t u : Term} (h : t.resolve old new = .ok u) :
    Alike (fun t u => t.resolve old new = .ok u) (· = ·) t u := by
  cases t with
  | rule _ | literal _ | regex _ => cases h; exact ⟨.nil, .nil⟩
  | stack _ => cases h
  | seq _ | choice _ =>
    obtain ⟨_, found, rfl⟩ := Except.map_eq_ok h
    exact ⟨resolveAll_forall₂ found, .nil⟩
  | quant _ _ _ | capture _ _ | cut _ =>
    obtain ⟨_, found, rfl⟩ := Except.map_eq_ok h
    exact ⟨.cons found .nil, .nil⟩
  | backref _ default =>
    obtain ⟨_, found, rfl⟩ := Except.map_eq_ok h
    cases default with
    | none => cases found; exact ⟨.nil, .nil⟩
    | some d =>
      obtain ⟨_, inside, rfl⟩ := Except.map_eq_ok found
      exact ⟨.cons inside .nil, .nil⟩
  | list _ _ _ =>
    obtain ⟨_, element, h⟩ := Except.bind_eq_ok h
    obtain ⟨_, separator, h⟩ := Except.bind_eq_ok h
    cases h
    exact ⟨.cons element (.cons separator .nil), .nil⟩
  | withRules _ rules =>
    obtain ⟨_, found, rfl⟩ := Except.map_eq_ok h
    exact ⟨.cons found .nil, .cons rfl .nil⟩

/-- Where every step keeps the shape of terms, a path leads to the same place in both terms. -/
theorem at?_alike {R : Term → Term → Prop} {S : Grammar → Grammar → Prop}
    (step : ∀ {t u}, R t u → Alike R S t u) {path : List Nat} :
    ∀ {t u : Term}, R t u → ∀ {inner : Scope} {end₁ : Term}, t.at? path = some (inner, end₁) →
      ∃ inner' end₂, u.at? path = some (inner', end₂) ∧ R end₁ end₂ ∧ List.Forall₂ S inner inner' := by
  induction path with
  | nil =>
    intro t u related inner end₁ here
    obtain ⟨rfl, rfl⟩ := Prod.mk.inj (Option.some.inj here)
    exact ⟨[], u, rfl, related, .nil⟩
  | cons i path ih =>
    intro t u related inner end₁ here
    obtain ⟨parts, own⟩ := step related
    obtain ⟨part, found, rest⟩ := Option.bind_eq_some_iff.mp here
    obtain ⟨⟨tables, v⟩, below, same⟩ := Option.map_eq_some_iff.mp rest
    obtain ⟨rfl, rfl⟩ := Prod.mk.inj same
    obtain ⟨part', found', related⟩ := getElem?_forall₂ parts found
    obtain ⟨tables', v', there, ends, matched⟩ := ih related below
    refine ⟨tables' ++ u.ownRules, v', ?_, ends, List.rel_append matched own⟩
    rw [at?, found', Option.bind_some, there, Option.map_some]

/-! ### Levels of rules -/

/-- A term that stands for another one: without the stacks inside of it, and perhaps with another reference
in place of the placeholder. -/
def Becomes (t u : Term) : Prop :=
  ∃ inside, t.traverse eliminateLocal = .ok inside ∧
    (u = inside ∨ ∃ next, inside.resolve placeholder next = .ok u)

theorem at?_becomes {path : List Nat} {t u : Term} (h : Becomes t u) {inner : Scope} {v : Term}
    (here : t.at? path = some (inner, v)) :
    ∃ inner' w, u.at? path = some (inner', w) ∧ Becomes v w ∧ List.Forall₂ Flattens inner inner' := by
  obtain ⟨inside, traversed, same | ⟨next, resolved⟩⟩ := h
  · obtain ⟨inner', w, there, ends, tables⟩ := at?_alike alike_traverse traversed here
    exact ⟨inner', w, same ▸ there, ⟨w, ends, .inl rfl⟩, tables⟩
  · obtain ⟨inner₁, w₁, there, ends, tables⟩ := at?_alike alike_traverse traversed here
    obtain ⟨inner₂, w₂, there, resolved, kept⟩ := at?_alike alike_resolve resolved there
    obtain rfl := List.forall₂_eq_eq_eq ▸ kept
    exact ⟨inner₁, w₂, there, ⟨w₁, ends, .inr ⟨next, resolved⟩⟩, tables⟩

theorem becomes_withRules {t u : Term} {rules : Table Term} (h : Becomes (.withRules t rules) u) :
    ∃ v flat, u = .withRules v flat ∧ Flattens rules flat := by
  obtain ⟨inside, traversed, new⟩ := h
  have own := (alike_traverse traversed).2
  obtain ⟨v, first, rest⟩ := Except.bind_eq_ok traversed
  obtain ⟨table, second, rest⟩ := Except.bind_eq_ok rest
  obtain ⟨flat, -, rfl⟩ := eliminateLocal_withRules rest
  cases own with | cons flattens _ =>
  obtain rfl | ⟨next, resolved⟩ := new
  · exact ⟨v, flat, rfl, flattens⟩
  · obtain ⟨w, -, rfl⟩ := Except.map_eq_ok resolved
    exact ⟨w, flat, rfl, flattens⟩

theorem traverseEntries_forall₂ {entries traversed : List (String × Term)}
    (h : traverseEntries eliminateLocal entries = .ok traversed) :
    List.Forall₂ (fun entry entry' => entry.1 = entry'.1 ∧
      entry.2.traverse eliminateLocal = .ok entry'.2) entries traversed := by
  induction entries generalizing traversed with
  | nil =>
    cases h
    exact .nil
  | cons entry entries ih =>
    obtain ⟨name, t⟩ := entry
    obtain ⟨u, first, h⟩ := Except.bind_eq_ok h
    obtain ⟨others, rest, h⟩ := Except.bind_eq_ok h
    cases h
    exact .cons ⟨rfl, first⟩ (ih rest)

theorem forall₂_traverse {g traversed : Grammar} (h : g.traverse eliminateLocal = .ok traversed) :
    List.Forall₂ (fun entry entry' => entry.1 = entry'.1 ∧
      entry.2.traverse eliminateLocal = .ok entry'.2) g.entries traversed.entries := by
  obtain ⟨entries⟩ := g
  obtain ⟨others, found, same⟩ := Except.bind_eq_ok h
  obtain rfl := Except.ok.inj same
  exact traverseEntries_forall₂ found

theorem Flattens.inv {g flat : Grammar} (h : Flattens g flat) :
    ∃ traversed, eliminateLayers ⟨traversed⟩ = .ok flat ∧
      List.Forall₂ (fun entry entry' => entry.1 = entry'.1 ∧
        entry.2.traverse eliminateLocal = .ok entry'.2) g.entries traversed := by
  obtain ⟨table, traversed, eliminated⟩ := Except.bind_eq_ok h
  exact ⟨table.entries, eliminated, forall₂_traverse traversed⟩

theorem exists_stack : ∀ {t : Term}, t.isStack = true → ∃ ts, t = .stack ts
  | .stack ts, _ => ⟨ts, rfl⟩

theorem layers_of_noStack {t : Term} (h : t.isStack = false) : t.layers = [t] := by
  cases t <;> first | rfl | cases h

theorem expandRule_of_noStack {name : String} {t : Term} (h : t.isStack = false) :
    expandRule name t = .ok [(name, t)] := by
  cases t <;> first | rfl | cases h

/-- The rules that a rule becomes once the stacks inside of it are gone: one for each of its layers. -/
theorem mem_expandRule_iff {name : String} {t u : Term} (traversed : t.traverse eliminateLocal = .ok u)
    {rules : List (String × Term)} (h : expandRule name u = .ok rules) {entry : String × Term} :
    entry ∈ rules ↔ ∃ (i : Nat) (layer : Term), t.layers[i]? = some layer ∧ entry.1 = layerName name i ∧
      expandLayer name t i layer = .ok entry.2 := by
  cases stack : t.isStack with
  | true =>
    obtain ⟨ts, rfl⟩ := exists_stack stack
    obtain ⟨us, all, same⟩ := Except.bind_eq_ok traversed
    obtain rfl := Except.ok.inj same
    have both := traverseAll_forall₂ all
    rw [mem_layerRules_iff h, ← both.length_eq]
    constructor
    · rintro ⟨i, layer', there, named, becomes⟩
      obtain ⟨layer, here, traversed⟩ := getElem?_forall₂ both.flip there
      refine ⟨i, layer, here, by rwa [Nat.zero_add] at named, ?_⟩
      rw [Nat.zero_add] at becomes
      rw [expandLayer, traversed]
      exact becomes
    · rintro ⟨i, layer, here, named, becomes⟩
      obtain ⟨layer', there, traversed⟩ := getElem?_forall₂ both here
      refine ⟨i, layer', there, by rwa [Nat.zero_add], ?_⟩
      rw [expandLayer, traversed] at becomes
      rw [Nat.zero_add]
      exact becomes
  | false =>
    have same : expandRule name u = .ok [(name, u)] :=
      expandRule_of_noStack ((isStack_traverse traversed).trans stack)
    obtain rfl := Except.ok.inj (h.symm.trans same)
    rw [List.mem_singleton, layers_of_noStack stack]
    constructor
    · rintro rfl
      refine ⟨0, t, rfl, rfl, ?_⟩
      rw [expandLayer, traversed, stack]
      rfl
    · rintro ⟨i, layer, there, named, becomes⟩
      obtain ⟨rfl, rfl⟩ : i = 0 ∧ layer = t := by
        cases i with
        | zero => exact ⟨rfl, (Option.some.inj there).symm⟩
        | succ i => cases there
      rw [expandLayer, traversed, stack] at becomes
      exact Prod.ext named (Except.ok.inj becomes).symm

/-- Every layer of a rule has become something. -/
theorem expandLayer_of_expandRule {name : String} {t u : Term} (traversed : t.traverse eliminateLocal = .ok u)
    {rules : List (String × Term)} (h : expandRule name u = .ok rules) {i : Nat} {layer : Term}
    (here : t.layers[i]? = some layer) : ∃ v, expandLayer name t i layer = .ok v := by
  cases stack : t.isStack with
  | true =>
    obtain ⟨ts, rfl⟩ := exists_stack stack
    obtain ⟨us, all, same⟩ := Except.bind_eq_ok traversed
    obtain rfl := Except.ok.inj same
    have both := traverseAll_forall₂ all
    obtain ⟨layer', there, inside⟩ := getElem?_forall₂ both here
    obtain ⟨v, resolved⟩ := layerRules_resolves h there
    refine ⟨v, ?_⟩
    rw [Nat.zero_add, ← both.length_eq] at resolved
    rw [expandLayer, inside]
    exact resolved
  | false =>
    rw [layers_of_noStack stack] at here
    obtain rfl : layer = t := by
      cases i with
      | zero => exact (Option.some.inj here).symm
      | succ i => cases here
    refine ⟨u, ?_⟩
    rw [expandLayer, traversed, stack]
    rfl

/-- The rules of a grammar without its stacks: the layers of the rules of the grammar. -/
theorem get?_flattens {g flat : Grammar} (h : Flattens g flat) {name : String} {u : Term} :
    flat.get? name = some u ↔ ∃ rule ∈ g.entries, ∃ (i : Nat) (layer : Term),
      rule.2.layers[i]? = some layer ∧ name = layerName rule.1 i ∧
        expandLayer rule.1 rule.2 i layer = .ok u := by
  obtain ⟨traversed, eliminated, both⟩ := h.inv
  rw [get?_addExpanded eliminated]
  constructor
  · rintro (⟨original, member, expanded, expands, here⟩ | none)
    · obtain ⟨j, there⟩ := List.getElem?_of_mem member
      obtain ⟨rule, found, named, traversed⟩ := getElem?_forall₂ both.flip there
      rw [← named] at expands
      obtain ⟨i, layer, layered, named, becomes⟩ := (mem_expandRule_iff traversed expands).mp here
      exact ⟨rule, List.mem_of_getElem? found, i, layer, layered, named, becomes⟩
    · cases none
  · rintro ⟨rule, member, i, layer, layered, named, becomes⟩
    obtain ⟨j, there⟩ := List.getElem?_of_mem member
    obtain ⟨original, found, same, traversed⟩ := getElem?_forall₂ both there
    obtain ⟨expanded, expands⟩ := addExpanded_expands eliminated (List.mem_of_getElem? found)
    refine .inl ⟨original, List.mem_of_getElem? found, expanded, expands, ?_⟩
    rw [← same] at expands
    exact (mem_expandRule_iff traversed expands).mpr ⟨i, layer, layered, named, becomes⟩

/-- Every layer of a rule is a rule of the grammar without stacks. -/
theorem Flattens.layer {g flat : Grammar} (h : Flattens g flat) {rule : String × Term}
    (member : rule ∈ g.entries) {i : Nat} {layer : Term} (here : rule.2.layers[i]? = some layer) :
    ∃ u, expandLayer rule.1 rule.2 i layer = .ok u ∧ flat.get? (layerName rule.1 i) = some u := by
  obtain ⟨traversed, eliminated, both⟩ := h.inv
  obtain ⟨j, there⟩ := List.getElem?_of_mem member
  obtain ⟨original, found, same, inside⟩ := getElem?_forall₂ both there
  obtain ⟨expanded, expands⟩ := addExpanded_expands eliminated (List.mem_of_getElem? found)
  rw [← same] at expands
  obtain ⟨u, becomes⟩ := expandLayer_of_expandRule inside expands here
  exact ⟨u, becomes, (get?_flattens h).mpr ⟨rule, member, i, layer, here, rfl, becomes⟩⟩

theorem contains_flattens {g flat : Grammar} (h : Flattens g flat) (name : String) :
    flat.contains name = true ↔ name ∈ g.flatNames := by
  rw [Table.contains, Option.isSome_iff_exists, flatNames, List.mem_flatMap]
  simp only [List.mem_map, List.mem_range]
  constructor
  · rintro ⟨u, here⟩
    obtain ⟨rule, member, i, layer, layered, named, -⟩ := (get?_flattens h).mp here
    exact ⟨rule, member, i, (List.getElem?_eq_some_iff.mp layered).1, named.symm⟩
  · rintro ⟨rule, member, i, inside, rfl⟩
    obtain ⟨u, -, here⟩ := h.layer member (List.getElem?_eq_getElem inside)
    exact ⟨u, here⟩

theorem isStack_expandLayer {name : String} {t layer u : Term} {i : Nat} (here : t.layers[i]? = some layer)
    (h : expandLayer name t i layer = .ok u) : u.isStack = false := by
  obtain ⟨inside, traversed, h⟩ := Except.bind_eq_ok h
  cases stack : t.isStack with
  | true =>
    rw [stack] at h
    exact isStack_resolve h
  | false =>
    rw [stack] at h
    obtain rfl := Except.ok.inj h
    rw [layers_of_noStack stack] at here
    rw [isStack_traverse traversed, ← stack, List.mem_singleton.mp (List.mem_of_getElem? here)]

theorem becomes_expandLayer {name : String} {t layer u : Term} {i : Nat}
    (h : expandLayer name t i layer = .ok u) : Becomes layer u := by
  obtain ⟨inside, traversed, h⟩ := Except.bind_eq_ok h
  refine ⟨inside, traversed, ?_⟩
  split at h
  · exact .inr ⟨_, h⟩
  · exact .inl (Except.ok.inj h).symm

/-- The layers of the rule that a name means. -/
theorem layer?_eq_some {g : Grammar} {name : String} {i : Nat} {layer : Term} :
    g.layer? name i = some layer ↔ ∃ t, g.get? name = some t ∧ t.layers[i]? = some layer :=
  Option.bind_eq_some_iff

/-- A layer of a rule stands in the grammar without stacks as a rule of its own. -/
theorem Flattens.layer? {g flat : Grammar} (h : Flattens g flat) {name : String} {i : Nat} {layer : Term}
    (here : g.layer? name i = some layer) :
    ∃ u, flat.layer? (layerName name i) 0 = some u ∧ Becomes layer u := by
  obtain ⟨t, found, layered⟩ := layer?_eq_some.mp here
  obtain ⟨u, becomes, there⟩ := h.layer (Table.mem_of_lookup found) layered
  refine ⟨u, layer?_eq_some.mpr ⟨u, there, ?_⟩, becomes_expandLayer becomes⟩
  rw [layers_of_noStack (isStack_expandLayer layered becomes)]
  rfl

end Grammar

open Grammar

/-- A level of local rules lies in the grammar without stacks at the same place. -/
theorem Scope.descend_flattens : ∀ {sites : List Site} {scope flat deep : Scope},
    List.Forall₂ Flattens scope flat → scope.descend sites = some deep →
    ∃ deep', flat.descend (sites.map Site.flat) = some deep' ∧ List.Forall₂ Flattens deep deep'
  | [], scope, flat, _, both, place => by
    obtain rfl := Option.some.inj place
    exact ⟨flat, rfl, both⟩
  | site :: sites, [], _, _, _, place => by cases place
  | site :: sites, g :: outer, _, deep, @List.Forall₂.cons _ _ _ _ flat _ outer' here around, place => by
    rw [descend] at place
    split at place
    · next inner t rules found =>
      obtain ⟨layer, layered, below⟩ := Option.bind_eq_some_iff.mp found
      obtain ⟨layer', layered', becomes⟩ := here.layer? layered
      obtain ⟨inner', u, below', ⟨inside, traversed, new⟩, tables⟩ := at?_becomes becomes below
      obtain ⟨t', rules', rfl, flattens⟩ := becomes_withRules ⟨inside, traversed, new⟩
      obtain ⟨deep', there, levels⟩ :=
        descend_flattens (.cons flattens (List.rel_append tables (.cons here around))) place
      refine ⟨deep', ?_, levels⟩
      rw [List.map_cons, descend, Site.flat, layered', Option.bind_some, below']
      exact there
    · cases place

/-- A name is looked up past tables that do not have it. -/
theorem Scope.find?_append {name : String} {scope : Scope} : ∀ {inner : Scope},
    (∀ g ∈ inner, g.contains name = false) → Scope.find? name (inner ++ scope) = Scope.find? name scope
  | [], _ => rfl
  | g :: inner, absent => by
    have here : g.get? name = none := by
      simpa [Table.contains] using absent g List.mem_cons_self
    rw [List.cons_append, Scope.find?, here]
    exact find?_append fun g' member => absent g' (List.mem_cons_of_mem _ member)

/-- A name that one of some tables has is found in them, and not further out. -/
theorem Scope.length_of_find? {name : String} {scope : Scope} : ∀ {inner : Scope},
    (∃ g ∈ inner, g.contains name = true) → ∀ {t : Term} {found : Scope},
    Scope.find? name (inner ++ scope) = some (t, found) → scope.length < found.length
  | g :: inner, present, t, found, h => by
    rw [List.cons_append, Scope.find?] at h
    split at h
    · obtain ⟨-, rfl⟩ := Prod.mk.inj (Option.some.inj h)
      rw [List.length_cons, List.length_append]
      omega
    · next absent =>
      refine length_of_find? ?_ h
      obtain ⟨g', member, has⟩ := present
      rcases List.mem_cons.mp member with rfl | member
      · rw [Table.contains, absent] at has
        cases has
      · exact ⟨g', member, has⟩

/-- A rule is what its name means behind some tables exactly if none of them has the name. -/
theorem Scope.find?_past {name : String} {g : Grammar} {t : Term} (here : g.get? name = some t)
    (inner outer : Scope) :
    Scope.find? name (inner ++ g :: outer) = some (t, g :: outer) ↔ ∀ table ∈ inner, table.contains name = false := by
  constructor
  · intro found
    by_contra present
    obtain ⟨table, member, has⟩ : ∃ table ∈ inner, table.contains name = true := by simpa using present
    exact Nat.lt_irrefl _ (length_of_find? ⟨table, member, has⟩ found)
  · intro absent
    rw [find?_append absent, Scope.find?, here]

theorem Grammar.contains_flattens_all {name : String} {inner inner' : Scope}
    (tables : List.Forall₂ Flattens inner inner') :
    (∀ table ∈ inner', table.contains name = false) ↔ ∀ rules ∈ inner, name ∉ rules.flatNames := by
  induction tables with
  | nil => simp
  | cons here _ ih =>
    rw [List.forall_mem_cons, List.forall_mem_cons, ih, ← contains_flattens here, Bool.not_eq_true]

/-- The reference that took the place of a placeholder in a layer of a stack, outside of local rules.  It
stands at the same path in the rule made of the layer, and bears the name of the rule made of the next
layer, after the last of the first.  It means that rule exactly if no rule or layer among the local rules
around the placeholder gets the same name. -/
theorem Grammar.placeholder_next {g flat : Grammar} (h : g.eliminateStacks = .ok flat)
    {sites : List Site} {level : Grammar} {outer : Scope}
    (place : Scope.descend sites [g] = some (level :: outer))
    {name : String} {layers : List Term} (bound : level.get? name = some (.stack layers))
    {i : Nat} {layer : Term} (here : layers[i]? = some layer)
    {path : List Nat} {inner : Scope} (reference : layer.at? path = some (inner, .rule placeholder)) :
    ∃ (next : Nat) (nextLayer nextBody body : Term) (level' : Grammar) (outer' inner' : Scope),
      next = (i + 1) % layers.length ∧ layers[next]? = some nextLayer ∧
      expandLayer name (.stack layers) next nextLayer = .ok nextBody ∧
      Scope.descend (sites.map Site.flat) [flat] = some (level' :: outer') ∧
      level'.get? (layerName name i) = some body ∧
      body.at? path = some (inner', .rule (layerName name next)) ∧
      level'.get? (layerName name next) = some nextBody ∧
      (Scope.find? (layerName name next) (inner' ++ level' :: outer') = some (nextBody, level' :: outer') ↔
        ∀ rules ∈ inner, layerName name next ∉ rules.flatNames) := by
  obtain ⟨deep, there, levels⟩ := Scope.descend_flattens (.cons h .nil) place
  cases levels with | @cons _ level' _ outer' flattens _ =>
  have member := Table.mem_of_lookup bound
  obtain ⟨inside, -⟩ := List.getElem?_eq_some_iff.mp here
  have wraps : (i + 1) % layers.length < layers.length := Nat.mod_lt _ (by omega)
  have nextLayer := List.getElem?_eq_getElem wraps
  obtain ⟨nextBody, nextBecomes, nextThere⟩ := flattens.layer member nextLayer
  obtain ⟨body, becomes, bodyThere⟩ := flattens.layer member here
  obtain ⟨expanded, traversed, resolved⟩ := Except.bind_eq_ok becomes
  obtain ⟨inner', t, below, same, tables⟩ := at?_alike alike_traverse traversed reference
  obtain rfl := Except.ok.inj same
  obtain ⟨inner'', t, below, same, kept⟩ := at?_alike alike_resolve resolved below
  obtain rfl := List.forall₂_eq_eq_eq ▸ kept
  obtain rfl := Except.ok.inj same
  refine ⟨_, _, nextBody, body, level', outer', inner', rfl, nextLayer, nextBecomes, there, bodyThere,
    below, nextThere, ?_⟩
  rw [Scope.find?_past nextThere, contains_flattens_all tables]

/-- Sums of numbers and of sums in brackets.  The layer of the brackets has a local rule of a given
name. -/
def bracketedSums (localRule : String) : Grammar :=
  .ofList [("a", .stack [
    .list (.rule placeholder) (.literal "+") {},
    .withRules
      (.choice [.seq [.literal "(", .rule placeholder, .literal ")"], .literal "n"])
      (.ofList [(localRule, .literal "z")])])]

/-- The sum in brackets is again a sum, where the local rule has a name of its own. -/
theorem Grammar.placeholder_next_bracketedSums :
    ∃ (flat : Grammar) (body sum : Term) (inner : Scope), (bracketedSums "b").eliminateStacks = .ok flat ∧
      flat.get? "a@1" = some body ∧ body.at? [0, 0, 1] = some (inner, .rule "a") ∧
      Scope.find? "a" (inner ++ [flat]) = some (sum, [flat]) := by
  obtain ⟨flat, h⟩ : ∃ flat, (bracketedSums "b").eliminateStacks = .ok flat := ⟨_, rfl⟩
  obtain ⟨next, layer, sum, body, level, outer, inner, rfl, -, -, place, bodyThere, reference, -, means⟩ :=
    @placeholder_next _ flat h [] _ [] rfl "a" _ rfl 1 _ rfl [0, 0, 1] _ rfl
  obtain ⟨rfl, rfl⟩ := List.cons.inj (Option.some.inj place)
  exact ⟨_, body, sum, inner, h, bodyThere, reference, means.mpr (by decide +kernel)⟩

/-- A local rule of the name of the next layer captures the reference: the sum in brackets has become
the local rule. -/
theorem Grammar.placeholder_captured :
    ∃ (flat : Grammar) (body : Term) (inner : Scope), (bracketedSums "a").eliminateStacks = .ok flat ∧
      flat.get? "a@1" = some body ∧ body.at? [0, 0, 1] = some (inner, .rule "a") ∧
      Scope.find? "a" (inner ++ [flat]) = some (.literal "z", inner ++ [flat]) :=
  ⟨_, _, _, rfl, rfl, rfl, rfl⟩

end GrammarKit
