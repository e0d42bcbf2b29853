/-
Module: GrammarKit.Proofs.Coverage
Purpose: What the checks on terms leave to the compiler.  The checker reads a grammar as it was written and
  the compiler works on the grammar without stacks; as long as nothing refers to the padding rule, the
  padding rule is plain and no rule is bound to a stack without layers, whatever the compiler cannot resolve
  or place has been reported by the checks.  Without these conditions there are grammars that pass the checks
  and are refused afterwards.
Main exports: Error.Unreported, Term.settles_layers, Grammar.compile_covered, Grammar.compile_padding_reference
-/
import GrammarKit.Proofs.Compilable
import GrammarKit.Proofs.Expansion
import GrammarKit.Proofs.LayerNames

namespace GrammarKit

/-- The errors of references that cannot be resolved and of stacks where none may stand. -/
def Error.Unreported : Error → Prop
  | .unknownRule _ => True
  | .structural (.nestedStack _) => True
  | .structural .misplacedStack => True
  | _ => False

/-- A computation whose errors, if it fails, are no unresolved references and no misplaced stacks. -/
abbrev Covered {α : Type} (x : Except Error α) : Prop :=
  Except.FailsOnly (fun e => ¬e.Unreported) x

theorem layerName_ne_paddingRule {base : String} (ne : base ≠ paddingRule) (layer : Nat) :
    layerName base layer ≠ paddingRule := by
  by_cases first : layer = 0
  · rwa [first, layerName, if_pos rfl]
  · intro same
    have backward := @reverse_layerName base layer first
    rw [same] at backward
    have mark : '@' ∈ paddingRule.toList.reverse := by
      rw [backward]
      exact List.mem_append_right _ List.mem_cons_self
    revert mark
    decide

theorem Grammar.mem_visibleNames {g flat : Grammar} (h : Flattens g flat) {name : String} :
    name ∈ flat.visibleNames ↔ name ∈ g.flatNames ∧ name ≠ paddingRule := by
  rw [visibleNames, List.mem_reverse, List.mem_filter, decide_eq_true_eq, ← contains_flattens h]
  exact and_congr_left' Table.lookup_isSome.symm

theorem terminal_covered (t : Term) (padding : Option Padding) : Covered (terminal t padding) := by
  rw [terminal]
  split
  · exact .ok _
  · exact .error not_false

theorem Padding.ofGrammar_covered (g : Grammar) (outer : Option Padding) : Covered (ofGrammar g outer) := by
  rw [ofGrammar]
  split
  · exact .ok _
  · split
    · exact .ok _
    · exact .error not_false

namespace Term

open Grammar

/-! #### What terms become -/

/-- What a term becomes: its stacks are expanded, and in a layer of a stack the placeholder is replaced by one of
the given names. -/
def Placed (inStack : Bool) (names : List String) (t u : Term) : Prop :=
  ∃ v, t.traverse eliminateLocal = .ok v ∧
    if inStack then ∃ next ∈ names, v.resolve placeholder next = .ok u else u = v

section Placed

variable {inStack : Bool} {names more : List String} {t u : Term}

theorem Placed.mono (h : Placed inStack names t u) (subset : names ⊆ more) : Placed inStack more t u := by
  obtain ⟨v, traversed, becomes⟩ := h
  refine ⟨v, traversed, ?_⟩
  cases inStack with
  | false => exact becomes
  | true =>
    obtain ⟨next, visible, resolved⟩ := becomes
    exact ⟨next, subset visible, resolved⟩

theorem Placed.becomes (h : Placed inStack names t u) : Becomes t u := by
  obtain ⟨v, traversed, becomes⟩ := h
  refine ⟨v, traversed, ?_⟩
  cases inStack with
  | false => exact .inl becomes
  | true =>
    obtain ⟨next, -, resolved⟩ := becomes
    exact .inr ⟨next, resolved⟩

/-- The parts of what a term becomes are what its parts become. -/
theorem Placed.part (h : Placed inStack names t u) {part : Term} (member : part ∈ u.parts) :
    ∃ original ∈ t.parts, Placed inStack names original part := by
  obtain ⟨v, traversed, becomes⟩ := h
  have first := (alike_traverse traversed).1.flip
  obtain ⟨i, there⟩ := List.getElem?_of_mem member
  cases inStack with
  | false =>
    subst becomes
    obtain ⟨original, here, traversed⟩ := getElem?_forall₂ first there
    exact ⟨original, List.mem_of_getElem? here, part, traversed, rfl⟩
  | true =>
    obtain ⟨next, visible, resolved⟩ := becomes
    obtain ⟨inside, there, resolved⟩ := getElem?_forall₂ (alike_resolve resolved).1.flip there
    obtain ⟨original, here, traversed⟩ := getElem?_forall₂ first there
    exact ⟨original, List.mem_of_getElem? here, inside, traversed, next, visible, resolved⟩

theorem Placed.ownRules (h : Placed inStack names t u) (none : t.ownRules = []) : u.ownRules = [] := by
  obtain ⟨v, traversed, becomes⟩ := h
  have first := (alike_traverse traversed).2
  rw [none, List.forall₂_nil_left_iff] at first
  cases inStack with
  | false => exact becomes ▸ first
  | true =>
    obtain ⟨next, -, resolved⟩ := becomes
    have kept : v.ownRules = u.ownRules := List.forall₂_eq_eq_eq ▸ (alike_resolve resolved).2
    rwa [← kept]

theorem Placed.isStack (h : Placed inStack names t u) (noStack : t.isStack = false) : u.isStack = false := by
  obtain ⟨v, traversed, becomes⟩ := h
  cases inStack with
  | false => rw [show u = v from becomes, isStack_traverse traversed, noStack]
  | true =>
    obtain ⟨next, -, resolved⟩ := becomes
    exact isStack_resolve resolved

theorem eq_rule_of_traverse {name : String} (h : t.traverse eliminateLocal = .ok (.rule name)) : t = .rule name := by
  cases t with
  | rule _ => cases h; rfl
  | literal _ | regex _ => cases h
  | seq _ | choice _ | stack _ | quant _ _ _ | capture _ _ | backref _ _ | cut _ =>
    obtain ⟨_, -, h⟩ := Except.bind_eq_ok h
    cases h
  | list _ _ _ =>
    obtain ⟨_, -, h⟩ := Except.bind_eq_ok h
    obtain ⟨_, -, h⟩ := Except.bind_eq_ok h
    cases h
  | withRules _ _ =>
    obtain ⟨_, -, h⟩ := Except.bind_eq_ok h
    obtain ⟨_, -, h⟩ := Except.bind_eq_ok h
    obtain ⟨_, -, same⟩ := eliminateLocal_withRules h
    cases same

theorem eq_rule_of_resolve {old new name : String} (h : t.resolve old new = .ok (.rule name)) :
    ∃ original, t = .rule original ∧ name = if original = old then new else original := by
  cases t with
  | rule original =>
    cases h
    exact ⟨original, rfl, rfl⟩
  | literal _ | regex _ | stack _ => cases h
  | seq _ | choice _ | quant _ _ _ | capture _ _ | backref _ _ | cut _ | withRules _ _ =>
    obtain ⟨_, -, h⟩ := Except.map_eq_ok h
    cases h
  | list _ _ _ =>
    obtain ⟨_, -, h⟩ := Except.bind_eq_ok h
    obtain ⟨_, -, h⟩ := Except.bind_eq_ok h
    cases h

/-- A reference comes of the same reference, or of the placeholder of a stack. -/
theorem Placed.reference {name : String} (h : Placed inStack names t (.rule name)) :
    name ∈ names ∨ t = .rule name ∧ (inStack = true → name ≠ placeholder) := by
  obtain ⟨v, traversed, becomes⟩ := h
  cases inStack with
  | false =>
    obtain rfl := becomes
    exact .inr ⟨eq_rule_of_traverse traversed, nofun⟩
  | true =>
    obtain ⟨next, visible, resolved⟩ := becomes
    obtain ⟨original, rfl, renamed⟩ := eq_rule_of_resolve resolved
    obtain rfl := eq_rule_of_traverse traversed
    split at renamed
    · exact .inl (renamed ▸ visible)
    · next other =>
      obtain rfl := renamed
      exact .inr ⟨rfl, fun _ => other⟩

end Placed

/-! #### What becomes of checked terms -/

section Checked

variable {names : List String} {u : Term}

theorem tryAll_covered {padding : Option Padding} {ts : List Term}
    (each : ∀ t ∈ ts, Covered (t.tryBuild names padding)) : Covered (tryAll names padding ts) := by
  induction ts with
  | nil => exact .ok _
  | cons t ts ih =>
    rw [tryAll]
    apply (each t List.mem_cons_self).bind
    intro _ _
    exact ih fun t member => each t (.tail _ member)

theorem tryEntries_covered {padding : Option Padding} {entries : List (String × Term)}
    (each : ∀ rule ∈ entries, rule.1 ≠ paddingRule → Covered (rule.2.tryBuild names padding)) :
    Covered (tryEntries names padding entries) := by
  induction entries with
  | nil => exact .ok _
  | cons rule entries ih =>
    obtain ⟨name, t⟩ := rule
    have others := ih fun rule member => each rule (.tail _ member)
    rw [tryEntries]
    split
    · exact others
    · next ne =>
      apply (each (name, t) List.mem_cons_self ne).bind
      intro _ _
      exact others

/-- A term without local rules fails to be compiled only as its parts do, unless it is a stack or a reference. -/
theorem tryBuild_covered (noRules : u.ownRules = []) (noStack : u.isStack = false)
    (references : ∀ name, u = .rule name → name ∈ names)
    (parts : ∀ part ∈ u.parts, ∀ padding, Covered (part.tryBuild names padding)) (padding : Option Padding) :
    Covered (u.tryBuild names padding) := by
  cases u with
  | rule name =>
    rw [tryBuild, if_pos (references name rfl)]
    exact .ok _
  | literal _ | regex _ =>
    rw [tryBuild]
    exact (terminal_covered _ padding).map _
  | stack _ => cases noStack
  | withRules _ _ => cases noRules
  | seq ts | choice ts =>
    rw [tryBuild]
    exact tryAll_covered fun t member => parts t member padding
  | list element separator _ =>
    rw [tryBuild]
    apply (parts element List.mem_cons_self padding).bind
    intro _ _
    exact parts separator (.tail _ List.mem_cons_self) padding
  | quant t _ _ | capture _ t | cut t =>
    rw [tryBuild]
    exact parts t List.mem_cons_self padding
  | backref _ default =>
    rw [tryBuild]
    cases default with
    | none => exact .ok _
    | some t => exact parts t List.mem_cons_self none

theorem regularAll_iff {ts : List Term} : regularAll ts = true ↔ ∀ t ∈ ts, t.regular = true := by
  induction ts with
  | nil => simp [regularAll]
  | cons t ts ih => rw [regularAll, Bool.and_eq_true, ih, List.forall_mem_cons]

theorem regular_part {t part : Term} (h : t.regular = true) (member : part ∈ t.parts) : part.regular = true := by
  cases t with
  | rule _ | literal _ | regex _ => cases member
  | seq ts | choice ts | stack ts => exact regularAll_iff.mp h part member
  | list element separator _ =>
    obtain ⟨first, second⟩ := (Bool.and_eq_true _ _).mp h
    rcases List.mem_cons.mp member with rfl | member
    · exact first
    · exact List.mem_singleton.mp member ▸ second
  | quant t _ _ | capture _ t | cut t => exact List.mem_singleton.mp member ▸ h
  | backref _ default =>
    cases default with
    | none => cases member
    | some t => exact List.mem_singleton.mp member ▸ h
  | withRules t rules => exact List.mem_singleton.mp member ▸ ((Bool.and_eq_true _ _).mp h).1

/-- Whatever a term becomes at a place where it has no violations can be compiled where the same rules can be
seen. -/
structure Settles (t : Term) : Prop where
  covered : ∀ {p : Place} {names : List String} {u : Term}, violations p t = [] → t.regular = true →
    (∀ name ∈ p.known, name ≠ paddingRule → name ∈ names) → t.Placed p.inStack names u →
      ∀ padding, Covered (u.tryBuild names padding)

theorem settles_of_parts {t : Term} (noRules : t.ownRules = []) (noStack : t.isStack = false)
    (parts : ∀ part ∈ t.parts, Settles part) : Settles t := by
  constructor
  intro p names u valid regular known placed
  apply tryBuild_covered (placed.ownRules noRules) (placed.isStack noStack)
  · rintro name rfl
    rcases placed.reference with visible | ⟨rfl, other⟩
    · exact visible
    · apply known name _ (by simpa [Term.regular] using regular)
      by_contra unknown
      cases stack : p.inStack with
      | false => simp [violations, referenceViolations, stack, unknown, Place.report] at valid
      | true => simp [violations, referenceViolations, other stack, unknown, Place.report] at valid
  · intro part member
    obtain ⟨original, inside, placed⟩ := placed.part member
    have here := violations_parts valid inside
    rw [noRules] at here
    exact (parts original inside).covered here (regular_part regular inside) known placed

theorem regular_layer {t layer : Term} (h : t.regular = true) (member : layer ∈ t.layers) : layer.regular = true := by
  cases stack : t.isStack with
  | true =>
    obtain ⟨ts, rfl⟩ := exists_stack stack
    exact regular_part h member
  | false =>
    rw [layers_of_noStack stack] at member
    exact List.mem_singleton.mp member ▸ h

/-- In the layers of a rule, the placeholder is replaced by names that can be seen. -/
theorem placed_of_expandLayer {g flat : Grammar} {outer : List String} (flattens : Flattens g flat)
    {rule : String × Term} (inside : rule ∈ g.entries) (ne : rule.1 ≠ paddingRule) {i : Nat} {layer u : Term}
    (here : rule.2.layers[i]? = some layer) (becomes : expandLayer rule.1 rule.2 i layer = .ok u) :
    layer.Placed rule.2.isStack (flat.visibleNames ++ outer) u := by
  obtain ⟨v, traversed, becomes⟩ := Except.bind_eq_ok becomes
  refine ⟨v, traversed, ?_⟩
  cases stack : rule.2.isStack with
  | false =>
    rw [stack] at becomes
    exact (Except.ok.inj becomes).symm
  | true =>
    rw [stack] at becomes
    refine ⟨_, List.mem_append_left _ ((mem_visibleNames flattens).mpr ⟨?_, ?_⟩), becomes⟩
    · have count : 0 < rule.2.layers.length := Nat.zero_lt_of_lt (List.getElem?_eq_some_iff.mp here).1
      apply List.mem_flatMap.mpr ⟨rule, inside, _⟩
      exact List.mem_map_of_mem (List.mem_range.mpr (Nat.mod_lt _ count))
    · exact layerName_ne_paddingRule ne _

/-- The names of the rules of a regular table can be seen once its stacks are gone. -/
theorem mem_visibleNames_of_regular {g flat : Grammar} (regular : regularTable g = true) (flattens : Flattens g flat)
    {name : String} (member : name ∈ g.names) (ne : name ≠ paddingRule) : name ∈ flat.visibleNames := by
  obtain ⟨entries⟩ := g
  obtain ⟨rule, inside, rfl⟩ := List.mem_map.mp member
  have plain := regularEntries_iff.mp regular rule inside
  rw [if_neg ne] at plain
  refine (mem_visibleNames flattens).mpr ⟨List.mem_flatMap.mpr ⟨rule, inside, ?_⟩, ne⟩
  exact List.mem_map.mpr ⟨0, List.mem_range.mpr (List.length_pos_of_ne_nil plain.1), if_pos rfl⟩

/-- The rules of a checked table can be compiled, once its stacks are gone, where they can be seen. -/
theorem tryTable_covered {entries : List (String × Term)} {flat : Grammar} {known outer : List String}
    (layers : ∀ rule ∈ entries, ∀ layer ∈ rule.2.layers, Settles layer)
    (valid : entryViolations known entries = []) (regular : regularEntries entries = true)
    (flattens : Flattens ⟨entries⟩ flat)
    (seen : ∀ name ∈ known, name ≠ paddingRule → name ∈ flat.visibleNames ++ outer) (padding : Option Padding) :
    Covered (tryTable (flat.visibleNames ++ outer) padding flat) := by
  obtain ⟨flatEntries⟩ := flat
  apply tryEntries_covered
  rintro ⟨name, u⟩ member ne
  have ordered := eliminateLayers_ordered (Except.bind_eq_ok flattens).choose_spec.2
  obtain ⟨rule, inside, i, layer, here, rfl, becomes⟩ := (get?_flattens flattens).mp (ordered.get?_of_mem member)
  have plain := regularEntries_iff.mp regular rule inside
  by_cases padded : rule.1 = paddingRule
  · -- The padding rule is no stack, so that it keeps its name.
    rw [if_pos padded] at plain
    rw [layers_of_noStack plain.1] at here
    obtain rfl : i = 0 := by
      cases i with
      | zero => rfl
      | succ i => cases here
    exact absurd padded ne
  · rw [if_neg padded] at plain
    have there := List.mem_of_getElem? here
    apply (layers rule inside layer there).covered (violations_layer valid inside padded there) _ seen
    · exact placed_of_expandLayer flattens inside padded here becomes
    · exact regular_layer plain.2 there

theorem settles_withRules {t : Term} {entries : List (String × Term)} (body : Settles t)
    (layers : ∀ rule ∈ entries, ∀ layer ∈ rule.2.layers, Settles layer) : Settles (.withRules t ⟨entries⟩) := by
  constructor
  intro p names u valid regular known placed padding
  obtain ⟨v, flat, rfl, flattens⟩ := becomes_withRules placed.becomes
  obtain ⟨validRules, validBody⟩ := List.append_eq_nil_iff.mp valid
  obtain ⟨regularBody, regularRules⟩ := (Bool.and_eq_true _ _).mp regular
  have seen : ∀ name ∈ (Table.mk entries).names ++ p.known, name ≠ paddingRule →
      name ∈ Grammar.visibleNames flat ++ names := by
    intro name member ne
    rcases List.mem_append.mp member with own | around
    · exact List.mem_append_left _ (mem_visibleNames_of_regular regularRules flattens own ne)
    · exact List.mem_append_right _ (known name around ne)
  rw [tryBuild]
  apply (Padding.ofGrammar_covered flat padding).bind
  intro padding _
  apply (tryTable_covered layers validRules regularRules flattens seen padding).bind
  intro _ _
  obtain ⟨original, inside, inner⟩ := placed.part List.mem_cons_self
  obtain rfl := List.mem_singleton.mp inside
  exact body.covered validBody regularBody seen (inner.mono (List.subset_append_right _ _)) padding

/-- A stack has violations wherever it stands; what counts are its layers. -/
theorem settles_of_layers {t : Term} (layers : ∀ layer ∈ t.layers, Settles layer) : Settles t := by
  cases stack : t.isStack with
  | true =>
    obtain ⟨ts, rfl⟩ := exists_stack stack
    exact ⟨nofun⟩
  | false =>
    rw [layers_of_noStack stack] at layers
    exact layers t List.mem_cons_self

theorem settles_layers_of_parts {t : Term} (noRules : t.ownRules = []) (noStack : t.isStack = false)
    (parts : ∀ part ∈ t.parts, Settles part) : ∀ layer ∈ t.layers, Settles layer := by
  rw [layers_of_noStack noStack]
  exact List.forall_mem_singleton.mpr (settles_of_parts noRules noStack parts)

mutual
/-- Every term can be compiled where it has no violations, and so can every layer of a stack. -/
theorem settles_layers : ∀ t : Term, ∀ layer ∈ t.layers, Settles layer
  | rule _ => settles_layers_of_parts rfl rfl nofun
  | literal _ => settles_layers_of_parts rfl rfl nofun
  | regex _ => settles_layers_of_parts rfl rfl nofun
  | seq ts => settles_layers_of_parts rfl rfl (settles_all ts)
  | choice ts => settles_layers_of_parts rfl rfl (settles_all ts)
  | stack ts => settles_all ts
  | list element separator _ => by
    have first := settles_of_layers (settles_layers element)
    have second := settles_of_layers (settles_layers separator)
    exact settles_layers_of_parts rfl rfl (List.forall_mem_cons.mpr ⟨first, List.forall_mem_singleton.mpr second⟩)
  | quant t _ _ =>
    settles_layers_of_parts rfl rfl (List.forall_mem_singleton.mpr (settles_of_layers (settles_layers t)))
  | capture _ t =>
    settles_layers_of_parts rfl rfl (List.forall_mem_singleton.mpr (settles_of_layers (settles_layers t)))
  | backref _ none => settles_layers_of_parts rfl rfl nofun
  | backref _ (some t) =>
    settles_layers_of_parts rfl rfl (List.forall_mem_singleton.mpr (settles_of_layers (settles_layers t)))
  | cut t =>
    settles_layers_of_parts rfl rfl (List.forall_mem_singleton.mpr (settles_of_layers (settles_layers t)))
  | withRules t ⟨entries⟩ =>
    List.forall_mem_singleton.mpr <|
      settles_withRules (settles_of_layers (settles_layers t)) (settles_entries entries)

theorem settles_all : ∀ ts : List Term, ∀ t ∈ ts, Settles t
  | [] => nofun
  | t :: ts => List.forall_mem_cons.mpr ⟨settles_of_layers (settles_layers t), settles_all ts⟩

theorem settles_entries : ∀ entries : List (String × Term), ∀ rule ∈ entries, ∀ layer ∈ rule.2.layers, Settles layer
  | [] => nofun
  | (_, t) :: entries => List.forall_mem_cons.mpr ⟨settles_layers t, settles_entries entries⟩
end

end Checked

end Term

namespace Grammar

open Term

/-- A checked grammar can be compiled once its stacks are gone, as far as references and stacks are concerned. -/
theorem tryCompile_covered {g flat : Grammar} (valid : g.termViolations = []) (regular : g.Regular)
    (flattens : Flattens g flat) : Covered flat.tryCompile := by
  obtain ⟨entries⟩ := g
  apply (Padding.ofGrammar_covered flat none).bind
  intro padding _
  rw [← List.append_nil flat.visibleNames]
  apply tryTable_covered (settles_entries entries) valid regular flattens
  intro name member ne
  rw [List.append_nil]
  exact mem_visibleNames_of_regular regular flattens member ne

/-- Validation covers what compilation rejects: if a grammar is refused although its terms have no violations, then
not because of a reference that cannot be resolved or a stack where none may stand. -/
theorem compile_covered {g : Grammar} (regular : g.Regular) {options : CompileOptions}
    (validated : options.validate = true) : Covered (g.compile options) := by
  generalize source : (if options.autoCutpoints then g.withCutpoints else g) = checked
  have regular : checked.Regular := by
    rw [← source]
    split
    · exact regular_withCutpoints regular
    · exact regular
  rw [compile, source]
  have refused : ∀ violations, Covered (refuseViolations options.validate violations) := by
    intro violations
    rw [refuseViolations]
    split
    · exact .error not_false
    · exact .ok _
  apply (refused _).bind
  intro _ unrefused
  have valid := refuseViolations_eq_ok unrefused validated
  have eliminated : Covered (Generic.lift checked.eliminateStacks) := by
    intro e failed
    have clashes := eliminateStacks_onlyClashes valid regular
    cases expanded : checked.eliminateStacks with
    | ok _ =>
      rw [expanded] at failed
      cases failed
    | error clash =>
      rw [expanded] at failed
      cases failed
      obtain ⟨name, rfl⟩ := clashes clash expanded
      exact not_false
  apply eliminated.bind
  intro flat flattens
  have flattens : Flattens checked flat := Except.mapError_eq_ok flattens
  have built : Covered (Program.ofGrammar flat) := by
    intro e failed
    apply tryCompile_covered valid regular flattens e
    have distinct : Program.DistinctNames flat.features := fun names member =>
      (features_eliminateStacks flattens _ member).1
    rw [← Program.ofGrammar_tryCompile distinct, failed]
    rfl
  apply built.bind
  intro program _
  exact (refused _).bind fun _ _ => .ok _

/-- A reference to a rule that does not exist has been reported. -/
theorem compile_covered_undefined :
    ∃ e, compile (.ofList [("a", .rule "b")]) {} = .error e ∧ ¬e.Unreported := by
  obtain ⟨e, refused⟩ : ∃ e, compile (.ofList [("a", .rule "b")]) {} = .error e := ⟨_, rfl⟩
  have regular : Regular (.ofList [("a", .rule "b")]) := by decide
  exact ⟨e, refused, compile_covered regular rfl e refused⟩

/-- A reference to the padding rule passes the checks, but there is no slot for it. -/
theorem compile_padding_reference :
    compile (.ofList [(paddingRule, .regex "\\s*()"), ("a", .rule paddingRule)]) {}
      = .error (.unknownRule paddingRule) :=
  rfl

end Grammar

end GrammarKit
