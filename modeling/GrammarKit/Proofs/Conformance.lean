/-
Module: GrammarKit.Proofs.Conformance
Purpose: The trees that a grammar describes.  A tree conforms to a term if it has the node that the term
  stands for with children that conform to the parts of the term; a reference goes on with the rule that
  the name means where it stands.  Every tree that a parse gives conforms to its rule, through so few rules
  in a row that the walks over trees have fuel for them.
Main exports: Term.Shaped, Term.ShapedRule, Parsers.shaped_of_parsePartial
-/
import GrammarKit.Parsers
import GrammarKit.Proofs.Derivation
import GrammarKit.Proofs.Layout
import GrammarKit.Proofs.StartSets
import GrammarKit.Proofs.Validity

namespace GrammarKit
namespace Term

/-! ### Trees that a term describes -/

/-- Trees that satisfy given properties one by one. -/
def Fits : List (Tree → Prop) → List Tree → Prop
  | [], [] => True
  | P :: Ps, tree :: trees => P tree ∧ Fits Ps trees
  | _, _ => False

section Shaped

variable (enter : Scope → Term → String → Tree → Prop)

mutual
/-- A tree has the shape that a term describes, with the given label; `enter` says the same of the body of
a rule and the name of that rule. -/
def Shaped (scope : Scope) (label : Option String) : Term → Tree → Prop
  | literal _, tree => ∃ s, tree = .leaf s
  | regex _, tree => ∃ s, tree = .leaf s
  | backref _ _, tree => ∃ s, tree = .leaf s
  | rule name, tree => ∃ body inner, scope.find? name = some (body, inner) ∧ enter inner body name tree
  | capture name t, tree => Shaped scope (some name) t tree
  | cut t, tree => Shaped scope label t tree
  | withRules t rules, tree => Shaped (rules :: scope) label t tree
  | seq ts, tree =>
      ∃ children, tree = .node (label.getD Tree.seqTag) none children ∧ ShapedItems scope ts children
  | choice ts, tree =>
      ∃ index child, tree = .node (label.getD Tree.choiceTag) (some (.choice index)) [child] ∧
        ShapedChosen scope ts index child
  | quant t min max, tree =>
      ∃ children, tree = .node (label.getD Tree.quantTag) none children ∧ min ≤ children.length ∧
        (max ≠ 0 → children.length ≤ max) ∧ ∀ child ∈ children, Shaped scope none t child
  | list element separator style, tree =>
      ∃ (leading trailing : Bool) (left : Nat) (slots : List Tree),
        tree = .ofSlots (label.getD Tree.listTag) style.assoc slots ∧
        leading.toNat + trailing.toNat ≤ left ∧
        Fits (slotPattern (Shaped scope none element) (Shaped scope none separator) (· = .elided)
          leading trailing left true) slots
  | stack _, _ => False

/-- The children of a sequence have the shapes of its items. -/
def ShapedItems (scope : Scope) : List Term → List Tree → Prop
  | [], [] => True
  | t :: ts, child :: children => Shaped scope none t child ∧ ShapedItems scope ts children
  | _, _ => False

/-- The child of a choice has the shape of the alternative with a given index. -/
def ShapedChosen (scope : Scope) : List Term → Nat → Tree → Prop
  | [], _, _ => False
  | t :: _, 0, child => Shaped scope none t child
  | _ :: ts, index + 1, child => ShapedChosen scope ts index child
end

end Shaped

/-- A tree has the shape of the body of a rule, through at most the given number of rules in a row. -/
def ShapedRule : Nat → Scope → Term → String → Tree → Prop
  | 0, _, _, _, _ => False
  | n + 1, scope, body, name, tree => Shaped (ShapedRule n) scope (some name) body tree

theorem Fits.length_eq : ∀ {Ps : List (Tree → Prop)} {trees : List Tree}, Fits Ps trees →
    trees.length = Ps.length
  | [], [], _ => rfl
  | _ :: _, _ :: _, ⟨_, others⟩ => congrArg (· + 1) others.length_eq

theorem ShapedItems.length_eq {enter : Scope → Term → String → Tree → Prop} {scope : Scope} :
    ∀ {ts : List Term} {children : List Tree}, ShapedItems enter scope ts children →
      children.length = ts.length
  | [], [], _ => rfl
  | _ :: _, _ :: _, ⟨_, others⟩ => congrArg (· + 1) others.length_eq

/-- The slots of a list that conforms are of odd number. -/
theorem Fits.length_slots {element separator elided : Tree → Prop} {leading trailing first : Bool}
    {left : Nat} {slots : List Tree}
    (h : Fits (slotPattern element separator elided leading trailing left first) slots) :
    slots.length = 2 * left + 1 := by
  rw [h.length_eq, length_slotPattern]

/-- No term describes an elided slot. -/
theorem Shaped.ne_elided {enter : Scope → Term → String → Tree → Prop}
    (rules : ∀ {scope body name tree}, enter scope body name tree → tree ≠ .elided) :
    ∀ {scope label t tree}, Shaped enter scope label t tree → tree ≠ .elided
  | _, _, .literal _, _, ⟨_, rfl⟩ => nofun
  | _, _, .regex _, _, ⟨_, rfl⟩ => nofun
  | _, _, .backref _ _, _, ⟨_, rfl⟩ => nofun
  | _, _, .rule _, _, ⟨_, _, _, body⟩ => rules body
  | _, _, .capture _ t, _, h => Shaped.ne_elided rules (t := t) h
  | _, _, .cut t, _, h => Shaped.ne_elided rules (t := t) h
  | _, _, .withRules t _, _, h => Shaped.ne_elided rules (t := t) h
  | _, _, .seq _, _, ⟨_, rfl, _⟩ => nofun
  | _, _, .choice _, _, ⟨_, _, rfl, _⟩ => nofun
  | _, _, .quant _ _ _, _, ⟨_, rfl, _⟩ => nofun
  | _, _, .list _ _ _, _, ⟨_, _, _, _, rfl, _, fits⟩ => Tree.ofSlots_ne_elided _ _ fits.length_slots

theorem ShapedRule.ne_elided {n : Nat} {scope : Scope} {body : Term} {name : String} {tree : Tree}
    (h : ShapedRule n scope body name tree) : tree ≠ .elided := by
  induction n generalizing scope body name tree with
  | zero => cases h
  | succ n ih => exact Shaped.ne_elided ih h

end Term

/-! ### Scopes -/

/-- A property of all features of the grammars of a scope. -/
def Scope.All (P : Feature → Prop) (scope : Scope) : Prop :=
  ∀ g ∈ scope, ∀ f ∈ g.features, P f

theorem Grammar.features_of_get? {g : Grammar} {name : String} {t : Term} (h : g.get? name = some t)
    (rule : name ≠ paddingRule) : t.features ⊆ g.features := by
  obtain ⟨entries⟩ := g
  intro f member
  refine List.mem_cons_of_mem _ (Term.mem_featuresEntries.mpr ⟨(name, t), ?_, ?_, member⟩)
  · exact Table.mem_of_lookup h
  · exact fun padding => rule padding.1

/-- The term that a name means and the scope it is read in have the features of the scope of the name. -/
theorem Scope.find?_all {P : Feature → Prop} {name : String} {scope inner : Scope} {t : Term}
    (h : scope.find? name = some (t, inner)) (rule : name ≠ paddingRule) (all : scope.All P) :
    inner.All P ∧ ∀ f ∈ t.features, P f := by
  induction scope with
  | nil => cases h
  | cons g outer ih =>
    rw [Scope.find?] at h
    split at h
    · next found =>
      obtain ⟨rfl, rfl⟩ := Prod.mk.inj (Option.some.inj h)
      exact ⟨all, fun f member => all g List.mem_cons_self f (Grammar.features_of_get? found rule member)⟩
    · exact ih h fun g member => all g (List.mem_cons_of_mem _ member)

/-! ### Parses conform -/

namespace Program

/-- The slots that a parser may call before it has taken input rank below a bound. -/
def CallsBelow (p : Program) (rank : Nat → Nat) (bound : Nat) (id : ParserId) : Prop :=
  ∃ fuel, id < fuel ∧ ∀ index ∈ p.startSet p.nullability fuel id, rank index < bound

/-- Surroundings in a program that belong to a scope all of whose features are valid. -/
structure Place (p : Program) (s : Surroundings) (frames : List Surroundings) (scope : Scope) : Prop where
  names : s.names = innermost frames
  sees : Sees p.draft frames scope
  valid : scope.All Feature.Valid

section Conformance

variable {p : Program} {rank : Nat → Nat}

theorem SlotRank.callsBelow (ranked : SlotRank p rank) (id : ParserId) :
    p.CallsBelow rank p.slots.length id :=
  ⟨id + 1, Nat.lt_succ_self id, fun _ member => ranked.bound (mem_startSet_lt member)⟩

/-- The slot that is called ranks below the bound, and what its body may call before it has taken input below that. -/
theorem CallsBelow.called {bound : Nat} {id slot body : ParserId} {label name : Option String} {rule : String}
    (calls : p.CallsBelow rank bound id) (ranked : SlotRank p rank)
    (here : p.draft.parsers[id]? = some ⟨label, .call slot⟩) (member : (slot, rule) ∈ p.slots)
    (set : p.draft.parsers[slot]? = some ⟨name, .call body⟩) (inside : body < p.draft.parsers.size) :
    ∃ index, rank index < bound ∧ p.CallsBelow rank (rank index) body := by
  obtain ⟨index, numbered⟩ := exists_slotIndex member
  obtain ⟨rule', numbered'⟩ := slotIndex?_eq_some numbered
  obtain ⟨fuel, above, low⟩ := calls
  obtain ⟨fuel, rfl⟩ := Nat.exists_eq_succ_of_ne_zero (Nat.ne_zero_of_lt above)
  refine ⟨index, low index ?_, p.parsers.size, inside, fun next member => ranked.lower numbered' set member⟩
  simp only [startSet, operator?, show p.parsers[id]? = _ from here, Option.map_some, numbered]
  exact List.mem_singleton.mpr rfl

/-- A cut calls what it cuts. -/
theorem CallsBelow.cut {bound : Nat} {id inner : ParserId} {label : Option String}
    (calls : p.CallsBelow rank bound id) (here : p.draft.parsers[id]? = some ⟨label, .cut inner⟩)
    (below : inner < id) : p.CallsBelow rank bound inner := by
  obtain ⟨fuel, above, low⟩ := calls
  obtain ⟨fuel, rfl⟩ := Nat.exists_eq_succ_of_ne_zero (Nat.ne_zero_of_lt above)
  refine ⟨fuel, Nat.lt_of_lt_of_le below (Nat.le_of_lt_succ above), fun index member => low index ?_⟩
  simpa only [startSet, operator?, show p.parsers[id]? = _ from here, Option.map_some] using member

/-- A step down a tree pays for a ride through all slots. -/
theorem descend {slots depth bound inner n : Nat} (enough : slots * depth + bound ≤ n)
    (deeper : inner < depth) : slots * inner + slots ≤ n := by
  have := Nat.mul_le_mul_left slots (Nat.succ_le_of_lt deeper)
  rw [Nat.mul_succ] at this
  omega

/-- The slots of a derived list have the shapes that its parts are sure to give. -/
theorem fits_of_derivesEach {element separator : ParserId} {E S : Tree → Prop} {leading trailing : Bool}
    {left : Nat} {first : Bool} {input rest : Slice} {slots : List Tree}
    (elements : ∀ slot ∈ slots, ∀ {here next}, Derives p element here slot next → E slot)
    (separators : ∀ slot ∈ slots, ∀ {here next}, Derives p separator here slot next → S slot)
    (ds : DerivesEach p (slotPattern (some element) (some separator) none leading trailing left first)
      input slots rest) :
    Term.Fits (slotPattern E S (· = .elided) leading trailing left first) slots := by
  induction left generalizing first input slots with
  | zero =>
    rw [slotPattern] at ds ⊢
    split at ds
    · next elided =>
      cases ds with
      | elided ds =>
        cases ds
        rw [if_pos elided]
        exact ⟨rfl, trivial⟩
    · next present =>
      cases ds with
      | cons d ds =>
        cases ds
        rw [if_neg present]
        exact ⟨elements _ List.mem_cons_self d, trivial⟩
  | succ left ih =>
    rw [slotPattern] at ds ⊢
    split at ds
    · next elided =>
      obtain _ | _ | ds := ds
      obtain _ | ⟨d, ds⟩ | _ := ds
      rw [if_pos elided]
      exact ⟨rfl, separators _ (by simp) d, ih (fun slot member => elements slot (by simp [member]))
        (fun slot member => separators slot (by simp [member])) ds⟩
    · next present =>
      obtain _ | ⟨d, ds⟩ | _ := ds
      obtain _ | ⟨d', ds⟩ | _ := ds
      rw [if_neg present]
      exact ⟨elements _ (by simp) d, separators _ (by simp) d',
        ih (fun slot member => elements slot (by simp [member]))
          (fun slot member => separators slot (by simp [member])) ds⟩

/-- What is to be shown of a term: whatever its parser derives conforms to it. -/
def TermShaped (p : Program) (rank : Nat → Nat) (n : Nat) (t : Term) : Prop :=
  ∀ ⦃s frames scope label id bound input tree rest⦄, BuiltAt p.draft s label t id →
    p.Place s frames scope → (∀ f ∈ t.features, f.Valid) → Derives p id input tree rest →
    p.CallsBelow rank bound id → p.slots.length * tree.depth + bound ≤ n →
    Term.Shaped (Term.ShapedRule n) scope label t tree

/-- The same of the bodies of rules, which are entered through fewer than `n` rules in a row. -/
def RulesShaped (p : Program) (rank : Nat → Nat) (n : Nat) : Prop :=
  ∀ ⦃name t s outer scope body input tree rest bound⦄, BuiltAt p.draft s (some name) t body →
    p.Place s (s :: outer) scope → (∀ f ∈ t.features, f.Valid) → Derives p body input tree rest →
    p.CallsBelow rank bound body → p.slots.length * tree.depth + bound < n →
    Term.ShapedRule n scope t name tree

/-- A reference goes on with the rule that it means, whose slot ranks below the bound. -/
theorem shaped_of_reference (ranked : SlotRank p rank) {n : Nat} (rules : RulesShaped p rank n)
    (name : String) : TermShaped p rank n (.rule name) := by
  intro s frames scope label id bound input tree rest built place _ d calls enough
  obtain ⟨slot, found, here⟩ := built
  rw [place.names] at found
  obtain ⟨t, inner, s', outer, body, means, member, set, made, sees⟩ := place.sees.find? found
  obtain ⟨innerValid, valid⟩ := Scope.find?_all means (place.sees.ne_paddingRule found) place.valid
  have d : Derives p slot input tree rest := d.inv here
  have d : Derives p body input tree rest := d.inv set
  obtain ⟨index, lower, calls⟩ := calls.called ranked here member set made.lt_size
  have fewer : p.slots.length * tree.depth + rank index < n :=
    Nat.lt_of_lt_of_le (Nat.add_lt_add_left lower _) enough
  exact ⟨t, inner, means, rules made ⟨rfl, sees, innerValid⟩ valid d calls fewer⟩

theorem shaped_of_cut {n : Nat} {t : Term} (inner : TermShaped p rank n t) :
    TermShaped p rank n (.cut t) := by
  intro s frames scope label id bound input tree rest built place valid d calls enough
  obtain ⟨inside, below, here, built⟩ := built
  rw [Term.Shaped]
  exact inner built place valid (d.inv here) (calls.cut here below) enough

mutual
/-- A tree that is derived by the parser of a term conforms to the term. -/
theorem shaped_of_built (ranked : SlotRank p rank) {n : Nat} (rules : RulesShaped p rank n) :
    ∀ t : Term, TermShaped p rank n t
  | .literal _ => by
    intro _ _ _ _ _ _ _ _ _ built _ _ d _ _
    obtain ⟨_, _, here⟩ := built
    obtain ⟨m, -, rfl, -⟩ := d.inv here
    exact ⟨_, rfl⟩
  | .regex _ => by
    intro _ _ _ _ _ _ _ _ _ built _ _ d _ _
    obtain ⟨_, _, here⟩ := built
    obtain ⟨m, -, rfl, -⟩ := d.inv here
    exact ⟨_, rfl⟩
  | .backref _ _ => by
    intro _ _ _ _ _ _ _ _ _ built _ _ d _ _
    obtain ⟨_, here, _⟩ := built
    obtain ⟨-, rfl⟩ := d.inv here
    exact ⟨_, rfl⟩
  | .rule name => shaped_of_reference ranked rules name
  | .capture _ t => by
    intro _ _ _ _ _ _ _ _ _ built place valid d calls enough
    rw [Term.Shaped]
    exact shaped_of_built ranked rules t built place (fun f member => valid f (.tail _ member)) d calls
      enough
  | .cut t => shaped_of_cut (shaped_of_built ranked rules t)
  | .withRules t g => by
    intro _ _ _ _ _ _ _ _ _ built place valid d calls enough
    obtain ⟨inner, opens, table, built⟩ := built
    rw [Term.Shaped]
    refine shaped_of_built ranked rules t built ⟨rfl, .inside place.sees place.names opens table, ?_⟩
      (fun f member => valid f (List.mem_append_left _ member)) d calls enough
    intro g' member f inside
    rcases List.mem_cons.mp member with rfl | member
    · exact valid f (List.mem_append_right _ inside)
    · exact place.valid g' member f inside
  | .seq ts => by
    intro _ _ _ _ _ _ _ _ _ built place valid d _ enough
    obtain ⟨items, here, built⟩ := built
    obtain ⟨trees, rfl, ds⟩ := d.inv here
    exact ⟨trees, rfl, shaped_of_builtItems ranked rules ts built place valid ds
      fun child member => descend enough (Tree.depth_lt_of_mem member)⟩
  | .choice ts => by
    intro _ _ _ _ _ _ _ _ _ built place valid d _ enough
    obtain ⟨alternatives, here, built⟩ := built
    obtain ⟨index, chosen, child, found, rfl, inner⟩ := d.inv here
    exact ⟨index, child, rfl, shaped_of_builtAll ranked rules ts built place valid found inner
      (descend enough (Tree.depth_lt_of_mem List.mem_cons_self))⟩
  | .quant t min max => by
    intro _ _ _ _ _ _ _ _ _ built place valid d _ enough
    obtain ⟨inner, below, here, built⟩ := built
    obtain ⟨trees, rfl, least, most, ds⟩ := d.inv here
    refine ⟨trees, rfl, least, fun bounded => ?_, fun child member => ?_⟩
    · have order : min ≤ max := valid (.quant min max) (.head _) bounded
      exact Nat.max_eq_right order ▸ most.resolve_left bounded
    · obtain ⟨_, _, d⟩ := ds.mem_replicate member
      exact shaped_of_built ranked rules t built place (fun f member => valid f (.tail _ member)) d
        (ranked.callsBelow inner) (descend enough (Tree.depth_lt_of_mem member))
  | .list element separator style => by
    intro _ _ _ label _ _ _ _ _ built place valid d _ enough
    obtain ⟨elementId, below, separatorId, below', here, first, second⟩ := built
    obtain ⟨leading, trailing, left, slots, rfl, -, -, terms, ds⟩ := d.inv here
    have opened := Tree.slots?_ofSlots (label.getD Tree.listTag) style.assoc ds.length_slots
    have deeper : ∀ slot ∈ slots, p.slots.length * slot.depth + p.slots.length ≤ n :=
      fun slot member => descend enough (Tree.depth_lt_of_mem_slots opened member)
    refine ⟨leading, trailing, left, slots, rfl, terms, fits_of_derivesEach ?_ ?_ ds⟩
    · intro slot member _ _ d
      exact shaped_of_built ranked rules element first place
        (fun f member => valid f (List.mem_append_left _ member)) d (ranked.callsBelow _)
        (deeper slot member)
    · intro slot member _ _ d
      exact shaped_of_built ranked rules separator second place
        (fun f member => valid f (List.mem_append_right _ member)) d (ranked.callsBelow _)
        (deeper slot member)
  | .stack _ => by
    intro _ _ _ _ _ _ _ _ _ built _ _ _ _ _
    exact built.elim

theorem shaped_of_builtItems (ranked : SlotRank p rank) {n : Nat} (rules : RulesShaped p rank n) :
    ∀ (ts : List Term) {s frames scope whole items input trees rest},
      BuiltItems p.draft s whole ts items → p.Place s frames scope →
      (∀ f ∈ Term.featuresAll ts, f.Valid) →
      DerivesEach p (items.map fun item => some item.parser) input trees rest →
      (∀ child ∈ trees, p.slots.length * child.depth + p.slots.length ≤ n) →
      Term.ShapedItems (Term.ShapedRule n) scope ts trees
  | [], _, _, _, _, items, _, _, _, built, _, _, ds, _ => by
    cases items with
    | nil => cases ds; trivial
    | cons item items => exact built.elim
  | t :: ts, _, _, _, _, items, _, _, _, built, place, valid, ds, enough => by
    cases items with
    | nil => exact built.elim
    | cons item items =>
      obtain ⟨below, -, -, here, others⟩ := built
      obtain _ | ⟨d, ds⟩ | _ := ds
      refine ⟨shaped_of_built ranked rules t here place
        (fun f member => valid f (List.mem_append_left _ member)) d (ranked.callsBelow _)
        (enough _ List.mem_cons_self), ?_⟩
      exact shaped_of_builtItems ranked rules ts others place
        (fun f member => valid f (List.mem_append_right _ member)) ds
        fun child member => enough child (List.mem_cons_of_mem _ member)

theorem shaped_of_builtAll (ranked : SlotRank p rank) {n : Nat} (rules : RulesShaped p rank n) :
    ∀ (ts : List Term) {s frames scope whole ids index chosen input child rest},
      BuiltAll p.draft s whole ts ids → p.Place s frames scope →
      (∀ f ∈ Term.featuresAll ts, f.Valid) → ids[index]? = some chosen →
      Derives p chosen input child rest → p.slots.length * child.depth + p.slots.length ≤ n →
      Term.ShapedChosen (Term.ShapedRule n) scope ts index child
  | [], _, _, _, _, ids, _, _, _, _, _, built, _, _, found, _, _ => by
    cases ids with
    | nil => cases found
    | cons id ids => exact built.elim
  | t :: ts, _, _, _, _, ids, index, _, _, _, _, built, place, valid, found, d, enough => by
    cases ids with
    | nil => exact built.elim
    | cons id ids =>
      obtain ⟨below, here, others⟩ := built
      cases index with
      | zero =>
        obtain rfl := Option.some.inj found
        exact shaped_of_built ranked rules t here place
          (fun f member => valid f (List.mem_append_left _ member)) d (ranked.callsBelow _) enough
      | succ index =>
        exact shaped_of_builtAll ranked rules ts others place
          (fun f member => valid f (List.mem_append_right _ member)) found d enough
end

/-- A tree that is derived by the body of a rule conforms to the rule, through no more rules in a row than
the depth of the tree and the rank of the rule allow. -/
theorem shapedRule_of_built (ranked : SlotRank p rank) (n : Nat) : RulesShaped p rank n := by
  induction n with
  | zero =>
    intro _ _ _ _ _ _ _ _ _ _ _ _ _ _ _ enough
    exact absurd enough (Nat.not_lt_zero _)
  | succ n ih =>
    intro _ t _ _ _ _ _ _ _ _ built place valid d calls enough
    exact shaped_of_built ranked ih t built place valid d calls (Nat.le_of_lt_succ enough)

end Conformance
end Program

namespace Parsers

variable {g : Grammar} {options : CompileOptions} {p : Parsers}

theorem distinctNames (compiled : g.compile options = .ok p) :
    Program.DistinctNames p.flat.features :=
  fun _ member => Grammar.nodup_compile compiled member

/-- The slot that a parse starts with belongs to a rule of the grammar without stacks. -/
theorem start_of_rule (compiled : g.compile options = .ok p) {rule : String} {slot : ParserId}
    (found : p.program.rules.get? rule = some slot) :
    ∃ t s body, rule ≠ paddingRule ∧ p.flat.get? rule = some t ∧ (slot, rule) ∈ p.program.slots ∧
      p.program.parsers[slot]? = some ⟨none, .call body⟩ ∧
      Program.BuiltAt p.program.draft s (some rule) t body ∧
      Program.Sees p.program.draft [s] [p.flat] := by
  obtain ⟨-, -, -, built, -⟩ := Grammar.compile_ok compiled
  obtain ⟨s, sees, -, starts⟩ := Program.built_ofGrammar built (distinctNames compiled)
  obtain ⟨t, inner, s', outer, body, means, member, set, made, sees'⟩ := sees.find? (starts found)
  have value : p.flat.get? rule = some t ∧ inner = [p.flat] := by
    rw [Scope.find?] at means
    split at means
    · next found =>
      obtain ⟨rfl, rfl⟩ := Prod.mk.inj (Option.some.inj means)
      exact ⟨found, rfl⟩
    · cases means
  obtain ⟨value, rfl⟩ := value
  obtain _ | ⟨further, names, opens, table⟩ := sees'
  obtain _ | _ := further
  exact ⟨t, s', body, sees.ne_paddingRule (starts found), value, member, set, made,
    .inside .outside names opens table⟩

/-- Every rule of the grammar without stacks has a slot. -/
theorem exists_slot (compiled : g.compile options = .ok p) {rule : String} (defined : rule ∈ p.flat.names)
    (noPadding : rule ≠ paddingRule) : ∃ slot, p.program.rules.get? rule = some slot := by
  obtain ⟨-, -, -, built, -⟩ := Grammar.compile_ok compiled
  obtain ⟨s, opens, -, -, starts⟩ := Program.opens_ofGrammar built (distinctNames compiled)
  obtain ⟨locals, names, order, -⟩ := opens.names
  have listed : rule ∈ locals.map (·.1) := by
    rw [order, List.mem_reverse, List.mem_filter]
    exact ⟨defined, decide_eq_true noPadding⟩
  obtain ⟨slot, found⟩ := Option.isSome_iff_exists.mp (Table.lookup_isSome.mpr listed)
  refine ⟨slot, ?_⟩
  rw [starts, names, Table.lookup_append, found]
  rfl

theorem slots_le_ruleCount (compiled : g.compile options = .ok p) :
    p.program.slots.length ≤ p.flat.ruleCount := by
  obtain ⟨-, -, -, built, -⟩ := Grammar.compile_ok compiled
  obtain ⟨s, -, count, -⟩ := Program.built_ofGrammar built (distinctNames compiled)
  exact count

/-- A walk over a tree is allowed one ride through all slots for each step down the tree and one at its root. -/
theorem slots_lt_walkFuel (compiled : g.compile options = .ok p) (tree : Tree) :
    p.program.slots.length * tree.depth + p.program.slots.length < p.flat.walkFuel tree :=
  calc p.program.slots.length * tree.depth + p.program.slots.length
      = p.program.slots.length * (tree.depth + 1) := (Nat.mul_succ _ _).symm
    _ ≤ p.flat.ruleCount * (tree.depth + 1) := Nat.mul_le_mul_right _ (slots_le_ruleCount compiled)
    _ < (p.flat.ruleCount + 1) * (tree.depth + 1) :=
      Nat.mul_lt_mul_of_pos_right (Nat.lt_succ_self _) (Nat.succ_pos _)
    _ = p.flat.walkFuel tree := rfl

/-- A parse that succeeds is a derivation by the slot of its rule. -/
theorem derives_of_parsePartial {rule : String} {input rest : Slice} {tree : Tree}
    (parsed : p.parsePartial rule input = .ok (tree, rest)) :
    ∃ slot, p.program.rules.get? rule = some slot ∧ Derives p.program slot input tree rest := by
  simp only [parsePartial, runPartial] at parsed
  split at parsed
  · cases parsed
  · next slot found =>
    refine ⟨slot, found, ?_⟩
    simp only [Program.start] at parsed
    generalize run : p.program.recognizer _ slot rule {} input {} = result at parsed
    obtain ⟨outcome, tally⟩ := result
    cases outcome with
    | matched value =>
      obtain rfl := Except.ok.inj parsed
      exact p.program.recognizer_derives _ slot run
    | failed f => cases parsed
    | exhausted => cases parsed

/-- A parse of all input is a parse that leaves nothing. -/
theorem parsePartial_of_parse {rule : String} {input : Slice} {tree : Tree}
    (parsed : p.parse rule input = .ok tree) :
    ∃ rest, p.parsePartial rule input = .ok (tree, rest) ∧ rest.chars = [] := by
  simp only [parse, run] at parsed
  obtain ⟨⟨tree', rest⟩, found, whole⟩ := Except.bind_eq_ok parsed
  simp only [requireAll] at whole
  split at whole
  · next empty =>
    obtain rfl := Except.ok.inj whole
    exact ⟨rest, found, List.isEmpty_iff.mp empty⟩
  · cases whole

/-- A tree that a validated grammar gives conforms to the rule that it was parsed as, through so few rules in
a row that a walk over the tree has fuel for them. -/
theorem shaped_of_parsePartial (compiled : g.compile options = .ok p)
    (validated : options.validate = true) {rule : String} {input rest : Slice} {tree : Tree}
    (parsed : p.parsePartial rule input = .ok (tree, rest)) :
    rule ≠ paddingRule ∧ ∃ body, p.flat.get? rule = some body ∧
      Term.ShapedRule (p.flat.walkFuel tree) [p.flat] body rule tree := by
  obtain ⟨slot, found, d⟩ := derives_of_parsePartial parsed
  obtain ⟨t, s, body, noPadding, value, member, set, built, sees⟩ := start_of_rule compiled found
  obtain ⟨source, -, -, -, checks⟩ := Grammar.compile_ok compiled
  obtain ⟨rank, ranked⟩ := Program.exists_slotRank (checks validated).2
  refine ⟨noPadding, t, value, ?_⟩
  have d : Derives p.program body input tree rest := d.inv set
  have valid := Grammar.valid_compile compiled validated
  have place : p.program.Place s [s] [p.flat] :=
    ⟨rfl, sees, fun g member f inside => valid f (List.mem_singleton.mp member ▸ inside)⟩
  have features := Grammar.features_of_get? value noPadding
  exact Program.shapedRule_of_built ranked _ built place (fun f inside => valid f (features inside)) d
    (ranked.callsBelow body) (slots_lt_walkFuel compiled tree)

end Parsers
end GrammarKit
