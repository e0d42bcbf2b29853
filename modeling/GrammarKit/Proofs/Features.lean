/-
Module: GrammarKit.Proofs.Features
Purpose: What a grammar contains, wherever it stands: tables of rules, patterns, bounds, captures and back
  references.  Validation speaks of a grammar as it was written and the compiler works on the same grammar
  without stacks; the features of the one are those of the other, up to the names of layers.
Main exports: Feature, Term.features, Grammar.features_withCutpoints, Grammar.features_eliminateStacks
-/
import GrammarKit.Grammar.Cutpoint
import GrammarKit.Grammar.Stack
import GrammarKit.Proofs.Results
import GrammarKit.Proofs.Tables

namespace GrammarKit

/-- Something that a grammar contains. -/
inductive Feature where
  /-- A table that defines rules of the given names. -/
  | rules (names : List String)
  | regex (pattern : String)
  | quant (min max : Nat)
  | capture (name : String)
  | backref (name : String)
deriving Repr, DecidableEq

/-- The names that a feature introduces. -/
def Feature.names : Feature → List String
  | rules names => names
  | capture name => [name]
  | backref name => [name]
  | _ => []

namespace Term

mutual
/-- All features of a term.  The term of the padding rule is no term of the grammar, unless it is a stack,
whose layers are rules like others. -/
def features : Term → List Feature
  | rule _ => []
  | literal _ => []
  | regex pattern => [.regex pattern]
  | seq ts => featuresAll ts
  | choice ts => featuresAll ts
  | stack ts => featuresAll ts
  | list element separator _ => features element ++ features separator
  | quant t min max => .quant min max :: features t
  | capture name t => .capture name :: features t
  | backref name default => .backref name :: featuresDefault default
  | cut t => features t
  | withRules t rules => features t ++ featuresTable rules

/-- The features of several terms. -/
def featuresAll : List Term → List Feature
  | [] => []
  | t :: ts => features t ++ featuresAll ts

/-- The features of a default. -/
def featuresDefault : Option Term → List Feature
  | none => []
  | some t => features t

/-- The features of a table: that it is one, and those of its rules. -/
def featuresTable : Table Term → List Feature
  | ⟨entries⟩ => .rules (entries.map (·.1)) :: featuresEntries entries

/-- The features of the rules among some entries. -/
def featuresEntries : List (String × Term) → List Feature
  | [] => []
  | (name, t) :: entries =>
      (if name = paddingRule ∧ t.isStack = false then [] else features t) ++ featuresEntries entries
end

theorem mem_featuresEntries {f : Feature} {entries : List (String × Term)} :
    f ∈ featuresEntries entries ↔
      ∃ entry ∈ entries, ¬(entry.1 = paddingRule ∧ entry.2.isStack = false) ∧ f ∈ entry.2.features := by
  induction entries with
  | nil => simp [featuresEntries]
  | cons entry entries ih =>
    obtain ⟨name, t⟩ := entry
    simp only [featuresEntries, List.mem_append, ih, List.mem_cons, exists_eq_or_imp]
    split
    · next skipped => simp only [skipped, and_self, not_true_eq_false, List.not_mem_nil, false_and]
    · next taken => simp only [taken, not_false_eq_true, true_and]

/-! ### Transformations that keep features -/

/-- A function on terms under which a term has the features it had. -/
structure KeepsFeatures (f : Term → Term) : Prop where
  features : ∀ t, (f t).features = t.features
  isStack : ∀ t, (f t).isStack = t.isStack

section Transform

variable {f : Term → Term}

theorem isStack_transform (keeps : KeepsFeatures f) (t : Term) :
    (t.transform f).isStack = t.isStack := by
  cases t <;> simp only [transform, keeps.isStack] <;> rfl

theorem names_transformEntries : ∀ entries : List (String × Term),
    (transformEntries f entries).map (·.1) = entries.map (·.1)
  | [] => rfl
  | (_, _) :: entries => by rw [transformEntries, List.map_cons, List.map_cons, names_transformEntries entries]

mutual
theorem features_transform (keeps : KeepsFeatures f) : ∀ t : Term, (t.transform f).features = t.features
  | rule _ => by rw [transform, keeps.features]
  | literal _ => by rw [transform, keeps.features]
  | regex _ => by rw [transform, keeps.features]
  | seq ts => by rw [transform, keeps.features, features, features, features_transformAll keeps ts]
  | choice ts => by rw [transform, keeps.features, features, features, features_transformAll keeps ts]
  | stack ts => by rw [transform, keeps.features, features, features, features_transformAll keeps ts]
  | list element separator _ => by
    rw [transform, keeps.features, features, features, features_transform keeps element,
      features_transform keeps separator]
  | quant t _ _ => by rw [transform, keeps.features, features, features, features_transform keeps t]
  | capture _ t => by rw [transform, keeps.features, features, features, features_transform keeps t]
  | backref _ default => by
    rw [transform, keeps.features, features, features, features_transformDefault keeps default]
  | cut t => by rw [transform, keeps.features, features, features, features_transform keeps t]
  | withRules t rules => by
    rw [transform, keeps.features, features, features, features_transform keeps t,
      features_transformTable keeps rules]

theorem features_transformAll (keeps : KeepsFeatures f) :
    ∀ ts : List Term, featuresAll (transformAll f ts) = featuresAll ts
  | [] => rfl
  | t :: ts => by
    rw [transformAll, featuresAll, featuresAll, features_transform keeps t, features_transformAll keeps ts]

theorem features_transformDefault (keeps : KeepsFeatures f) :
    ∀ default : Option Term, featuresDefault (transformDefault f default) = featuresDefault default
  | none => rfl
  | some t => by rw [transformDefault, featuresDefault, featuresDefault, features_transform keeps t]

theorem features_transformTable (keeps : KeepsFeatures f) :
    ∀ rules : Table Term, featuresTable (transformTable f rules) = featuresTable rules
  | ⟨entries⟩ => by
    rw [transformTable, featuresTable, featuresTable, features_transformEntries keeps entries,
      names_transformEntries entries]

theorem features_transformEntries (keeps : KeepsFeatures f) : ∀ entries : List (String × Term),
    featuresEntries (transformEntries f entries) = featuresEntries entries
  | [] => rfl
  | (name, t) :: entries => by
    rw [transformEntries, featuresEntries, featuresEntries, features_transform keeps t,
      isStack_transform keeps t, features_transformEntries keeps entries]
end

end Transform

theorem keepsFeatures_cutLiteral (unique : List String) : KeepsFeatures (cutLiteral unique) where
  features t := by
    unfold cutLiteral
    split
    · split <;> rfl
    · rfl
    · rfl
  isStack t := by
    unfold cutLiteral
    split
    · split <;> rfl
    · rfl
    · rfl

mutual
/-- Only references change when a placeholder is resolved. -/
theorem features_resolve (old new : String) : ∀ {t u : Term}, t.resolve old new = .ok u →
    u.features = t.features
  | rule _, _, h => by cases h; rfl
  | literal _, _, h => by cases h; rfl
  | regex _, _, h => by cases h; rfl
  | seq ts, _, h => by
    obtain ⟨us, found, rfl⟩ := Except.map_eq_ok h
    exact features_resolveAll old new found
  | choice ts, _, h => by
    obtain ⟨us, found, rfl⟩ := Except.map_eq_ok h
    exact features_resolveAll old new found
  | stack _, _, h => by cases h
  | list element separator _, _, h => by
    obtain ⟨e, first, h⟩ := Except.bind_eq_ok h
    obtain ⟨s, second, h⟩ := Except.bind_eq_ok h
    cases h
    rw [features, features, features_resolve old new first, features_resolve old new second]
  | quant t _ _, _, h => by
    obtain ⟨u, found, rfl⟩ := Except.map_eq_ok h
    rw [features, features, features_resolve old new found]
  | capture _ t, _, h => by
    obtain ⟨u, found, rfl⟩ := Except.map_eq_ok h
    rw [features, features, features_resolve old new found]
  | backref _ default, _, h => by
    obtain ⟨u, found, rfl⟩ := Except.map_eq_ok h
    rw [features, features, features_resolveDefault old new found]
  | cut t, _, h => by
    obtain ⟨u, found, rfl⟩ := Except.map_eq_ok h
    rw [features, features, features_resolve old new found]
  | withRules t _, _, h => by
    obtain ⟨u, found, rfl⟩ := Except.map_eq_ok h
    rw [features, features, features_resolve old new found]

theorem features_resolveAll (old new : String) : ∀ {ts us : List Term}, resolveAll old new ts = .ok us →
    featuresAll us = featuresAll ts
  | [], _, h => by cases h; rfl
  | t :: ts, _, h => by
    obtain ⟨u, first, h⟩ := Except.bind_eq_ok h
    obtain ⟨us, others, h⟩ := Except.bind_eq_ok h
    cases h
    rw [featuresAll, featuresAll, features_resolve old new first, features_resolveAll old new others]

theorem features_resolveDefault (old new : String) : ∀ {t u : Option Term},
    resolveDefault old new t = .ok u → featuresDefault u = featuresDefault t
  | none, _, h => by cases h; rfl
  | some t, _, h => by
    obtain ⟨u, found, rfl⟩ := Except.map_eq_ok h
    exact features_resolve old new found
end

/-- What a placeholder is resolved in is no stack. -/
theorem isStack_resolve {old new : String} {t u : Term} (h : t.resolve old new = .ok u) :
    u.isStack = false := by
  cases t with
  | stack _ => cases h
  | list element separator _ =>
    obtain ⟨e, -, h⟩ := Except.bind_eq_ok h
    obtain ⟨s, -, h⟩ := Except.bind_eq_ok h
    cases h
    rfl
  | rule _ | literal _ | regex _ => cases h; rfl
  | seq _ | choice _ | quant _ _ _ | capture _ _ | backref _ _ | cut _ | withRules _ _ =>
    obtain ⟨_, -, rfl⟩ := Except.map_eq_ok h
    rfl

end Term

/-- The features of a grammar. -/
def Grammar.features (g : Grammar) : List Feature :=
  Term.featuresTable g

/-- The names of the rules, captures and back references of a grammar, local ones included. -/
def Grammar.featureNames (g : Grammar) : List String :=
  g.features.flatMap Feature.names

/-- Cutpoints around literals add and remove nothing else. -/
theorem Grammar.features_withCutpoints (g : Grammar) : g.withCutpoints.features = g.features := by
  obtain ⟨entries⟩ := g
  simp only [features, withCutpoints, Term.featuresTable, List.map_map]
  generalize uniqueLiterals ⟨entries⟩ = unique
  congr 1
  induction entries with
  | nil => rfl
  | cons entry entries ih =>
    obtain ⟨name, t⟩ := entry
    simp only [List.map_cons, Term.featuresEntries, ih]
    split
    · rfl
    · have keeps := Term.keepsFeatures_cutLiteral unique
      rw [Term.isStack_transform keeps, Term.features_transform keeps]

/-! ### Grammars without stacks -/

/-- A feature of a grammar without stacks, given those of the grammar that it was made of.  Tables have been
made anew: no name occurs twice, and each is that of a layer. -/
def Feature.FlatOf (features : List Feature) : Feature → Prop
  | rules names => names.Nodup ∧ ∃ original, rules original ∈ features ∧
      ∀ name ∈ names, ∃ base ∈ original, ∃ layer, name = layerName base layer
  | f => f ∈ features

theorem Feature.FlatOf.mono {features larger : List Feature} (subset : features ⊆ larger) :
    ∀ {f : Feature}, f.FlatOf features → f.FlatOf larger
  | rules _, ⟨nodup, original, member, layers⟩ => ⟨nodup, original, subset member, layers⟩
  | regex _, member => subset member
  | quant _ _, member => subset member
  | capture _, member => subset member
  | backref _, member => subset member

namespace Grammar

open Term

/-- A rule of a grammar without stacks comes from a rule of the grammar: it is that rule, or a layer of
the stack to which the rule is bound. -/
structure FromRule (original flat : String × Term) : Prop where
  name : ∃ layer, flat.1 = layerName original.1 layer
  same : original.2.isStack = false → flat = original
  features : flat.2.features ⊆ original.2.features
  isStack : flat.2.isStack = false

theorem mem_layerRules {name : String} {count layer : Nat} {ts : List Term}
    {layers : List (String × Term)} (h : layerRules name count layer ts = .ok layers)
    {entry : String × Term} (member : entry ∈ layers) :
    (∃ layer, entry.1 = layerName name layer) ∧ entry.2.features ⊆ featuresAll ts ∧
      entry.2.isStack = false := by
  induction ts generalizing layer layers with
  | nil => cases h; cases member
  | cons t ts ih =>
    obtain ⟨u, resolved, h⟩ := Except.bind_eq_ok h
    obtain ⟨others, rest, h⟩ := Except.bind_eq_ok h
    cases h
    rcases List.mem_cons.mp member with rfl | member
    · refine ⟨⟨layer, rfl⟩, ?_, isStack_resolve resolved⟩
      rw [features_resolve _ _ resolved]
      exact List.subset_append_left _ _
    · obtain ⟨named, subset, noStack⟩ := ih rest member
      exact ⟨named, List.Subset.trans subset (List.subset_append_right _ _), noStack⟩

theorem mem_expandRule {name : String} {t : Term} {layers : List (String × Term)}
    (h : expandRule name t = .ok layers) {entry : String × Term} (member : entry ∈ layers) :
    FromRule (name, t) entry := by
  cases t with
  | stack ts =>
    obtain ⟨named, subset, noStack⟩ := mem_layerRules h member
    exact ⟨named, nofun, subset, noStack⟩
  | _ =>
    cases h
    obtain rfl := List.mem_singleton.mp member
    exact ⟨⟨0, rfl⟩, fun _ => rfl, List.Subset.refl _, rfl⟩

theorem addNew_ordered {g result : Grammar} {rules : List (String × Term)}
    (h : addNew g rules = .ok result) (ordered : g.Ordered) : result.Ordered := by
  induction rules generalizing g with
  | nil => cases h; exact ordered
  | cons rule rules ih =>
    simp only [addNew] at h
    split at h
    · cases h
    · exact ih h (Table.ordered_insert ordered _ _)

theorem mem_addNew {g result : Grammar} {rules : List (String × Term)}
    (h : addNew g rules = .ok result) {entry : String × Term} (member : entry ∈ result.entries) :
    entry ∈ g.entries ∨ entry ∈ rules := by
  induction rules generalizing g with
  | nil => cases h; exact .inl member
  | cons rule rules ih =>
    simp only [addNew] at h
    split at h
    · cases h
    · rcases ih h with old | new
      · rcases Table.mem_insertEntry old with rfl | old
        · exact .inr List.mem_cons_self
        · exact .inl old
      · exact .inr (List.mem_cons_of_mem _ new)

theorem addExpanded_ordered {g result : Grammar} {rules : List (String × Term)}
    (h : addExpanded g rules = .ok result) (ordered : g.Ordered) : result.Ordered := by
  induction rules generalizing g with
  | nil => cases h; exact ordered
  | cons rule rules ih =>
    obtain ⟨layers, -, h⟩ := Except.bind_eq_ok h
    obtain ⟨next, added, h⟩ := Except.bind_eq_ok h
    exact ih h (addNew_ordered added ordered)

theorem mem_addExpanded {g result : Grammar} {rules : List (String × Term)}
    (h : addExpanded g rules = .ok result) {entry : String × Term} (member : entry ∈ result.entries) :
    entry ∈ g.entries ∨ ∃ original ∈ rules, FromRule original entry := by
  induction rules generalizing g with
  | nil => cases h; exact .inl member
  | cons rule rules ih =>
    obtain ⟨layers, expanded, h⟩ := Except.bind_eq_ok h
    obtain ⟨next, added, h⟩ := Except.bind_eq_ok h
    rcases ih h with here | ⟨original, later, source⟩
    · rcases mem_addNew added here with old | new
      · exact .inl old
      · exact .inr ⟨rule, List.mem_cons_self, mem_expandRule expanded new⟩
    · exact .inr ⟨original, List.mem_cons_of_mem _ later, source⟩

theorem eliminateLayers_ordered {g flat : Grammar} (h : g.eliminateLayers = .ok flat) : flat.Ordered :=
  addExpanded_ordered h Table.ordered_empty

theorem mem_eliminateLayers {g flat : Grammar} (h : g.eliminateLayers = .ok flat)
    {entry : String × Term} (member : entry ∈ flat.entries) :
    ∃ original ∈ g.entries, FromRule original entry :=
  (mem_addExpanded h member).resolve_left (List.not_mem_nil (a := entry))

theorem names_eliminateLayers {g flat : Grammar} (h : g.eliminateLayers = .ok flat) :
    flat.names.Nodup ∧ ∀ name ∈ flat.names, ∃ base ∈ g.names, ∃ layer, name = layerName base layer := by
  refine ⟨(eliminateLayers_ordered h).nodup, fun name named => ?_⟩
  obtain ⟨entry, here, rfl⟩ := List.mem_map.mp named
  obtain ⟨original, there, source⟩ := mem_eliminateLayers h here
  exact ⟨original.1, List.mem_map_of_mem there, source.name⟩

theorem features_eliminateLayers {g flat : Grammar} (h : g.eliminateLayers = .ok flat) :
    featuresEntries flat.entries ⊆ featuresEntries g.entries := by
  intro f member
  obtain ⟨entry, here, counted, member⟩ := mem_featuresEntries.mp member
  obtain ⟨original, there, source⟩ := mem_eliminateLayers h here
  refine mem_featuresEntries.mpr ⟨original, there, ?_, source.features member⟩
  rintro ⟨padding, noStack⟩
  rw [source.same noStack] at counted
  exact counted ⟨padding, noStack⟩

/-- All features of the second list are those of a grammar without stacks made of the first. -/
def FlatFeatures (original flat : List Feature) : Prop :=
  ∀ f ∈ flat, f.FlatOf original

theorem FlatFeatures.append {as bs cs ds : List Feature} (h : FlatFeatures as bs)
    (h' : FlatFeatures cs ds) : FlatFeatures (as ++ cs) (bs ++ ds) := by
  intro f member
  rcases List.mem_append.mp member with member | member
  · exact (h f member).mono (List.subset_append_left _ _)
  · exact (h' f member).mono (List.subset_append_right _ _)

theorem FlatFeatures.cons {f : Feature} {as bs : List Feature} (here : f.FlatOf [f])
    (h : FlatFeatures as bs) : FlatFeatures (f :: as) (f :: bs) := by
  intro f' member
  rcases List.mem_cons.mp member with rfl | member
  · exact here.mono (List.cons_subset_cons _ (List.nil_subset _))
  · exact (h f' member).mono (List.subset_cons_self _ _)

theorem eliminateLocal_withRules {t : Term} {rules : Table Term} {u : Term}
    (h : eliminateLocal (.withRules t rules) = .ok u) :
    ∃ flat, eliminateLayers rules = .ok flat ∧ u = .withRules t flat := by
  obtain ⟨flat, found, rfl⟩ := Except.map_eq_ok h
  exact ⟨flat, found, rfl⟩

theorem isStack_traverse {t u : Term} (h : t.traverse eliminateLocal = .ok u) :
    u.isStack = t.isStack := by
  cases t with
  | rule _ | literal _ | regex _ => cases h; rfl
  | seq _ | choice _ | stack _ | quant _ _ _ | capture _ _ | backref _ _ | cut _ =>
    obtain ⟨_, -, h⟩ := Except.bind_eq_ok h
    cases h
    rfl
  | list _ _ _ =>
    obtain ⟨_, -, h⟩ := Except.bind_eq_ok h
    obtain ⟨_, -, h⟩ := Except.bind_eq_ok h
    cases h
    rfl
  | withRules _ _ =>
    obtain ⟨_, -, h⟩ := Except.bind_eq_ok h
    obtain ⟨_, -, h⟩ := Except.bind_eq_ok h
    obtain ⟨_, -, rfl⟩ := eliminateLocal_withRules h
    rfl

/-- The features of a table whose rules have been traversed and whose stacks have been expanded. -/
theorem features_layers {entries traversed : List (String × Term)} {flat : Grammar}
    (names : traversed.map (·.1) = entries.map (·.1))
    (flatEntries : FlatFeatures (featuresEntries entries) (featuresEntries traversed))
    (h : eliminateLayers ⟨traversed⟩ = .ok flat) :
    FlatFeatures (features ⟨entries⟩) flat.features := by
  obtain ⟨nodup, layers⟩ := names_eliminateLayers h
  have inside := features_eliminateLayers h
  obtain ⟨flat⟩ := flat
  intro f member
  rcases List.mem_cons.mp member with rfl | member
  · refine ⟨nodup, entries.map (·.1), List.mem_cons_self, ?_⟩
    rwa [← names]
  · exact (flatEntries f (inside member)).mono (List.subset_cons_self _ _)

mutual
/-- Taking the stacks out of local rules, from the inside out, leaves flat features. -/
theorem features_traverse : ∀ {t u : Term}, t.traverse eliminateLocal = .ok u →
    FlatFeatures t.features u.features
  | .rule _, _, h => by cases h; nofun
  | .literal _, _, h => by cases h; nofun
  | .regex _, _, h => by
    cases h
    exact FlatFeatures.cons List.mem_cons_self nofun
  | .seq ts, _, h => by
    obtain ⟨us, found, h⟩ := Except.bind_eq_ok h
    cases h
    exact features_traverseAll found
  | .choice ts, _, h => by
    obtain ⟨us, found, h⟩ := Except.bind_eq_ok h
    cases h
    exact features_traverseAll found
  | .stack ts, _, h => by
    obtain ⟨us, found, h⟩ := Except.bind_eq_ok h
    cases h
    exact features_traverseAll found
  | .list element separator _, _, h => by
    obtain ⟨e, first, h⟩ := Except.bind_eq_ok h
    obtain ⟨s, second, h⟩ := Except.bind_eq_ok h
    cases h
    exact (features_traverse first).append (features_traverse second)
  | .quant t _ _, _, h => by
    obtain ⟨u, found, h⟩ := Except.bind_eq_ok h
    cases h
    exact .cons List.mem_cons_self (features_traverse found)
  | .capture _ t, _, h => by
    obtain ⟨u, found, h⟩ := Except.bind_eq_ok h
    cases h
    exact .cons List.mem_cons_self (features_traverse found)
  | .backref _ default, _, h => by
    obtain ⟨u, found, h⟩ := Except.bind_eq_ok h
    cases h
    exact .cons List.mem_cons_self (features_traverseDefault found)
  | .cut t, _, h => by
    obtain ⟨u, found, h⟩ := Except.bind_eq_ok h
    cases h
    rw [Term.features, Term.features]
    exact features_traverse found
  | .withRules t ⟨entries⟩, _, h => by
    obtain ⟨u, first, h⟩ := Except.bind_eq_ok h
    obtain ⟨table, second, h⟩ := Except.bind_eq_ok h
    obtain ⟨traversed, found, second⟩ := Except.bind_eq_ok second
    obtain rfl := Except.ok.inj second
    obtain ⟨flat, eliminated, rfl⟩ := eliminateLocal_withRules h
    obtain ⟨names, flatEntries⟩ := features_traverseEntries found
    exact (features_traverse first).append (features_layers names flatEntries eliminated)

theorem features_traverseAll : ∀ {ts us : List Term}, traverseAll eliminateLocal ts = .ok us →
    FlatFeatures (featuresAll ts) (featuresAll us)
  | [], _, h => by cases h; nofun
  | t :: ts, _, h => by
    obtain ⟨u, first, h⟩ := Except.bind_eq_ok h
    obtain ⟨us, others, h⟩ := Except.bind_eq_ok h
    cases h
    exact (features_traverse first).append (features_traverseAll others)

theorem features_traverseDefault : ∀ {t u : Option Term}, traverseDefault eliminateLocal t = .ok u →
    FlatFeatures (featuresDefault t) (featuresDefault u)
  | none, _, h => by cases h; nofun
  | some t, _, h => by
    obtain ⟨u, found, h⟩ := Except.bind_eq_ok h
    cases h
    exact features_traverse found

theorem features_traverseEntries : ∀ {entries traversed : List (String × Term)},
    traverseEntries eliminateLocal entries = .ok traversed →
    traversed.map (·.1) = entries.map (·.1) ∧
      FlatFeatures (featuresEntries entries) (featuresEntries traversed)
  | [], _, h => by cases h; exact ⟨rfl, nofun⟩
  | (name, t) :: entries, _, h => by
    obtain ⟨u, first, h⟩ := Except.bind_eq_ok h
    obtain ⟨others, rest, h⟩ := Except.bind_eq_ok h
    cases h
    obtain ⟨names, flat⟩ := features_traverseEntries rest
    refine ⟨by rw [List.map_cons, List.map_cons, names], ?_⟩
    rw [featuresEntries, featuresEntries, isStack_traverse first]
    refine FlatFeatures.append ?_ flat
    split
    · nofun
    · exact features_traverse first
end

/-- A grammar without stacks has the features of the grammar that it was made of. -/
theorem features_eliminateStacks {g flat : Grammar} (h : g.eliminateStacks = .ok flat) :
    FlatFeatures g.features flat.features := by
  obtain ⟨entries⟩ := g
  obtain ⟨table, traversed, eliminated⟩ := Except.bind_eq_ok h
  obtain ⟨others, found, same⟩ := Except.bind_eq_ok traversed
  obtain rfl := Except.ok.inj same
  obtain ⟨names, flatEntries⟩ := features_traverseEntries found
  exact features_layers names flatEntries eliminated

end Grammar
end GrammarKit
