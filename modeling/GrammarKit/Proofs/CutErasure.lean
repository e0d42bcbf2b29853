/-
Module: GrammarKit.Proofs.CutErasure
Purpose: What cutpoints do.  A grammar without its cutpoints compiles to parsers that do the same as before, as
  long as its sequences bind the same names, so its parses give what those of the grammar itself give, wherever
  these are not stopped behind a cutpoint.
Main exports: Grammar.KeepsBindings, Program.Twin, Program.Twin.upholds, Parsers.parsePartial_eraseCuts
-/
import GrammarKit.Proofs.Adequacy
import GrammarKit.Proofs.Conformance
import GrammarKit.Proofs.FlatGrammars

namespace GrammarKit

/-! ### Terms without cutpoints -/

namespace Term

mutual
/-- The items of all sequences in a term. -/
def seqItems : Term → List Term
  | rule _ => []
  | literal _ => []
  | regex _ => []
  | seq ts => ts ++ seqItemsAll ts
  | choice ts => seqItemsAll ts
  | stack ts => seqItemsAll ts
  | list element separator _ => seqItems element ++ seqItems separator
  | quant t _ _ => seqItems t
  | capture _ t => seqItems t
  | backref _ default => seqItemsDefault default
  | cut t => seqItems t
  | withRules t rules => seqItems t ++ seqItemsTable rules

/-- The items of all sequences in several terms. -/
def seqItemsAll : List Term → List Term
  | [] => []
  | t :: ts => seqItems t ++ seqItemsAll ts

/-- The items of all sequences in a default. -/
def seqItemsDefault : Option Term → List Term
  | none => []
  | some t => seqItems t

/-- The items of all sequences in the rules of a table. -/
def seqItemsTable : Table Term → List Term
  | ⟨entries⟩ => seqItemsEntries entries

/-- The items of all sequences in the rules among some entries. -/
def seqItemsEntries : List (String × Term) → List Term
  | [] => []
  | (_, t) :: entries => seqItems t ++ seqItemsEntries entries
end

theorem seqItems_subset {name : String} {t : Term} {entries : List (String × Term)}
    (found : Table.lookup name entries = some t) : t.seqItems ⊆ seqItemsEntries entries := by
  induction entries with
  | nil => cases found
  | cons entry entries ih =>
    obtain ⟨other, t'⟩ := entry
    rw [Table.lookup] at found
    split at found
    · obtain rfl := Option.some.inj found
      exact List.subset_append_left _ _
    · exact List.subset_append_of_subset_right _ (ih found)

theorem seqItems_subset_all {t : Term} {ts : List Term} (member : t ∈ ts) : t.seqItems ⊆ seqItemsAll ts := by
  induction ts with
  | nil => cases member
  | cons t' ts ih =>
    rcases List.mem_cons.mp member with rfl | member
    · exact List.subset_append_left _ _
    · exact List.subset_append_of_subset_right _ (ih member)

theorem isCut_eraseCuts (t : Term) : t.eraseCuts.isCut = false := by
  cases t with
  | capture name t => exact isCut_eraseCuts t
  | cut t => exact isCut_eraseCuts t
  | _ => rfl

mutual
theorem backrefNames_eraseCuts : ∀ t : Term, t.eraseCuts.backrefNames = t.backrefNames
  | rule _ => rfl
  | literal _ => rfl
  | regex _ => rfl
  | seq ts => backrefNamesAll_eraseCuts ts
  | choice ts => backrefNamesAll_eraseCuts ts
  | stack ts => backrefNamesAll_eraseCuts ts
  | list element separator _ =>
      congrArg₂ (· ++ ·) (backrefNames_eraseCuts element) (backrefNames_eraseCuts separator)
  | quant t _ _ => backrefNames_eraseCuts t
  | capture _ t => backrefNames_eraseCuts t
  | backref name default => congrArg (name :: ·) (backrefNamesDefault_eraseCuts default)
  | cut t => backrefNames_eraseCuts t
  | withRules t rules => congrArg₂ (· ++ ·) (backrefNames_eraseCuts t) (backrefNamesTable_eraseCuts rules)

theorem backrefNamesAll_eraseCuts : ∀ ts : List Term,
    backrefNamesAll (transformAll dropCut ts) = backrefNamesAll ts
  | [] => rfl
  | t :: ts => congrArg₂ (· ++ ·) (backrefNames_eraseCuts t) (backrefNamesAll_eraseCuts ts)

theorem backrefNamesDefault_eraseCuts : ∀ default : Option Term,
    backrefNamesDefault (transformDefault dropCut default) = backrefNamesDefault default
  | none => rfl
  | some t => backrefNames_eraseCuts t

theorem backrefNamesTable_eraseCuts : ∀ rules : Table Term,
    backrefNamesTable (transformTable dropCut rules) = backrefNamesTable rules
  | ⟨entries⟩ => backrefNamesEntries_eraseCuts entries

theorem backrefNamesEntries_eraseCuts : ∀ entries : List (String × Term),
    backrefNamesEntries (transformEntries dropCut entries) = backrefNamesEntries entries
  | [] => rfl
  | (_, t) :: entries => congrArg₂ (· ++ ·) (backrefNames_eraseCuts t) (backrefNamesEntries_eraseCuts entries)
end

theorem lookup_transformEntries (f : Term → Term) (name : String) : ∀ entries : List (String × Term),
    Table.lookup name (transformEntries f entries) = (Table.lookup name entries).map (transform f)
  | [] => rfl
  | (other, t) :: entries => by
    rw [transformEntries, Table.lookup, Table.lookup, lookup_transformEntries f name entries]
    split <;> rfl

/-- Without their cutpoints, some items bind those of the given names that they bind with them. -/
def KeepBindings (backrefs : List String) (items : List Term) : Prop :=
  ∀ item ∈ items,
    item.eraseCuts.bindingName?.filter backrefs.contains = item.bindingName?.filter backrefs.contains

section KeepBindings

variable {backrefs : List String} {items others : List Term}

theorem KeepBindings.mono (h : KeepBindings backrefs items) (subset : others ⊆ items) :
    KeepBindings backrefs others :=
  fun item member => h item (subset member)

theorem KeepBindings.left (h : KeepBindings backrefs (items ++ others)) : KeepBindings backrefs items :=
  h.mono (List.subset_append_left _ _)

theorem KeepBindings.right (h : KeepBindings backrefs (items ++ others)) : KeepBindings backrefs others :=
  h.mono (List.subset_append_right _ _)

end KeepBindings
end Term

/-- Without their cutpoints, the sequences of a grammar bind those of the names that its back references refer to
that they bind with them. -/
def Grammar.KeepsBindings (g : Grammar) : Prop :=
  Term.KeepBindings (Term.backrefNamesTable g) (Term.seqItemsTable g)

instance (backrefs : List String) (items : List Term) : Decidable (Term.KeepBindings backrefs items) :=
  inferInstanceAs (Decidable (∀ item ∈ items, _))

instance (g : Grammar) : Decidable g.KeepsBindings :=
  inferInstanceAs (Decidable (Term.KeepBindings _ _))

/-! ### Padding -/

namespace Padding

theorem eraseCuts_of_isTerminal {t : Term} (terminal : isTerminal t = true) : t.eraseCuts = t := by
  cases t with
  | literal text => rfl
  | regex pattern => rfl
  | _ => cases terminal

theorem transformAll_of_isTerminal {ts : List Term} (terminals : ∀ t ∈ ts, isTerminal t = true) :
    Term.transformAll Term.dropCut ts = ts := by
  induction ts with
  | nil => rfl
  | cons t ts ih =>
    have first : t.transform Term.dropCut = t := eraseCuts_of_isTerminal (terminals t List.mem_cons_self)
    rw [Term.transformAll, first, ih fun t member => terminals t (.tail _ member)]

/-- A term that stands for padding has no cutpoints. -/
theorem eraseCuts_of_ofTerm {t : Term} {padding : Padding} (h : ofTerm t = .ok padding) : t.eraseCuts = t := by
  rcases terminals_of_ofTerm h with ⟨pattern, rfl⟩ | ⟨ts, rfl, terminals⟩
  · rfl
  · exact congrArg Term.choice (transformAll_of_isTerminal terminals)

/-- Padding is the same without cutpoints. -/
theorem ofGrammar_eraseCuts {rules : Grammar} {outer padding : Option Padding}
    (h : ofGrammar rules outer = .ok padding) : ofGrammar rules.eraseCuts outer = .ok padding := by
  obtain ⟨entries⟩ := rules
  have erased : Table.get? (Grammar.eraseCuts ⟨entries⟩) paddingRule
      = (Table.get? ⟨entries⟩ paddingRule).map Term.eraseCuts :=
    Term.lookup_transformEntries _ _ entries
  rw [ofGrammar] at h ⊢
  rw [erased]
  cases found : Table.get? ⟨entries⟩ paddingRule with
  | none =>
    rw [found] at h
    exact h
  | some t =>
    simp only [found] at h
    cases made : ofTerm t with
    | error violation =>
      rw [made] at h
      cases h
    | ok padding =>
      rw [Option.map_some, eraseCuts_of_ofTerm made]
      exact h

end Padding

/-! ### Twins -/

namespace Program

section Twins

variable (d d' : Draft) (backrefs : List String)

/-- The names that can be seen inside some tables of rules, with and without cutpoints. -/
inductive TwinNames : Names → Names → Prop
  | outside : TwinNames [] []
  | inside {outer outer' s names} {rules : Grammar} : TwinNames outer.names outer'.names → s.backrefs = backrefs →
      Term.KeepBindings backrefs (Term.seqItemsTable rules) → Opens d outer rules s → BuiltTable d s rules →
      Opens d' outer' rules.eraseCuts { s with names := names } →
      BuiltTable d' { s with names := names } rules.eraseCuts → TwinNames s.names names

/-- The parsers of a term and of the same term without its cutpoints, and the slots of such parsers. -/
inductive Twin : ParserId → ParserId → Prop
  | term {s names label t id id'} : TwinNames d d' backrefs s.names names → s.backrefs = backrefs →
      Term.KeepBindings backrefs t.seqItems → BuiltAt d s label t id →
      BuiltAt d' { s with names := names } label t.eraseCuts id' → Twin id id'
  | slot {slot slot' body body' : ParserId} : d.parsers[slot]? = some ⟨none, .call body⟩ →
      d'.parsers[slot']? = some ⟨none, .call body'⟩ → Twin body body' → Twin slot slot'

end Twins

section Twins

variable {d d' : Draft} {backrefs : List String}

theorem names_eraseCuts (rules : Grammar) : rules.eraseCuts.names = rules.names := by
  obtain ⟨entries⟩ := rules
  exact Term.names_transformEntries entries

/-- A name means the slots of twins, or nothing on both sides. -/
theorem TwinNames.lookup {names names' : Names} (twins : TwinNames d d' backrefs names names') (name : String) :
    Option.Rel (Twin d d' backrefs) (Table.lookup name names) (Table.lookup name names') := by
  induction twins with
  | outside => exact .none
  | @inside outer outer' s names' rules further known keep opens built opens' built' ih =>
    obtain ⟨locals, same, order, -⟩ := opens.names
    obtain ⟨locals', same', order', -⟩ := opens'.names
    have same' : names' = locals' ++ outer'.names := same'
    rw [names_eraseCuts, ← order] at order'
    by_cases inside : name ∈ locals.map (·.1)
    · have member := inside
      rw [order, List.mem_reverse, List.mem_filter] at member
      have rule : name ≠ paddingRule := by simpa using member.2
      obtain ⟨entries⟩ := rules
      obtain ⟨t, slot, body, value, found, set, made⟩ := mem_of_builtEntries built member.1 rule
      have member' : name ∈ (Term.transformEntries Term.dropCut entries).map (·.1) := by
        rw [Term.names_transformEntries]
        exact member.1
      obtain ⟨t', slot', body', value', found', set', made'⟩ := mem_of_builtEntries built' member' rule
      rw [Term.lookup_transformEntries, value] at value'
      obtain rfl := Option.some.inj value'
      have keep' := keep.mono (Term.seqItems_subset value)
      have body := Twin.term (.inside further known keep opens built opens' built') known keep' made made'
      rw [found, found']
      exact .some (.slot set set' body)
    · have absent : Table.lookup name locals = none :=
        Option.not_isSome_iff_eq_none.mp fun found => inside (Table.lookup_isSome.mp found)
      have absent' : Table.lookup name locals' = none := by
        refine Option.not_isSome_iff_eq_none.mp fun found => inside ?_
        rw [← order']
        exact Table.lookup_isSome.mp found
      rw [same, same', Table.lookup_append, Table.lookup_append, absent, absent', Option.none_or, Option.none_or]
      exact ih

/-- What twins do: the same with twins, except that the first one may be a cutpoint around a twin of the second. -/
inductive TwinSteps (d d' : Draft) (backrefs : List String) (id id' : ParserId) : Prop
  | same {label operator operator'} : d.parsers[id]? = some ⟨label, operator⟩ →
      d'.parsers[id']? = some ⟨label, operator'⟩ → operator.Like true (Twin d d' backrefs) operator' →
      TwinSteps d d' backrefs id id'
  | cut {label inner} : d.parsers[id]? = some ⟨label, .cut inner⟩ → Twin d d' backrefs inner id' →
      TwinSteps d d' backrefs id id'

section Parts

variable {s : Surroundings} {names : Names} (twins : TwinNames d d' backrefs s.names names)
  (known : s.backrefs = backrefs)

include twins known

theorem items_like {whole whole' : ParserId} : ∀ {ts : List Term} {items items' : List Item},
    (∀ t ∈ ts, Term.KeepBindings backrefs t.seqItems) → Term.KeepBindings backrefs ts →
    BuiltItems d s whole ts items →
    BuiltItems d' { s with names := names } whole' (Term.transformAll Term.dropCut ts) items' →
    List.Forall₂ (Item.Like true (Twin d d' backrefs)) items items'
  | [], [], [], _, _, _, _ => .nil
  | t :: ts, item :: items, item' :: items', inside, keep, ⟨_, bind, cut, made, others⟩,
      ⟨_, bind', cut', made', others'⟩ => by
    have same : item'.bind = item.bind := by
      rw [bind, bind', bindName, bindName, known]
      exact keep t List.mem_cons_self
    have erased : item'.cut = false := cut'.trans (Term.isCut_eraseCuts t)
    have like : Item.Like true (Twin d d' backrefs) item item' :=
      ⟨.term twins known (inside t List.mem_cons_self) made made', same, .inr ⟨rfl, erased⟩⟩
    exact .cons like (items_like (fun t member => inside t (.tail _ member)) (keep.mono (List.subset_cons_self _ _))
      others others')

theorem alternatives_twins {whole whole' : ParserId} : ∀ {ts : List Term} {ids ids' : List ParserId},
    Term.KeepBindings backrefs (Term.seqItemsAll ts) → BuiltAll d s whole ts ids →
    BuiltAll d' { s with names := names } whole' (Term.transformAll Term.dropCut ts) ids' →
    List.Forall₂ (Twin d d' backrefs) ids ids'
  | [], [], [], _, _, _ => .nil
  | _ :: _, _ :: _, _ :: _, keep, ⟨_, made, others⟩, ⟨_, made', others'⟩ =>
      .cons (.term twins known keep.left made made') (alternatives_twins keep.right others others')

end Parts

/-- Parsers of a term and of the same term without its cutpoints do the same with twins, or there is a cutpoint. -/
theorem twinSteps_of_built : ∀ {s names label t id id'}, TwinNames d d' backrefs s.names names →
    s.backrefs = backrefs → Term.KeepBindings backrefs (Term.seqItems t) → BuiltAt d s label t id →
    BuiltAt d' { s with names := names } label t.eraseCuts id' → TwinSteps d d' backrefs id id'
  | _, _, _, .capture _ t, _, _, twins, known, keep, made, made' =>
      twinSteps_of_built (t := t) twins known keep made made'
  | s, names, label, .withRules t rules, id, id', twins, known, keep, ⟨inner, opens, table, made⟩,
      ⟨⟨backrefs', names', padding'⟩, opens', table', made'⟩ => by
    obtain rfl : backrefs' = inner.backrefs := opens'.backrefs.trans opens.backrefs.symm
    have padding := (Padding.ofGrammar_eraseCuts opens.padding).symm.trans opens'.padding
    obtain rfl : inner.padding = padding' := Except.ok.inj padding
    have known : inner.backrefs = backrefs := opens.backrefs.trans known
    exact twinSteps_of_built (.inside twins known keep.right opens table opens' table') known keep.left made made'
  | _, _, _, .cut t, _, _, twins, known, keep, ⟨_, _, here, made⟩, made' =>
      .cut here (.term (t := t) twins known keep made made')
  | _, _, _, .rule name, _, _, twins, _, _, ⟨_, found, here⟩, ⟨_, found', here'⟩ => by
    have slots := twins.lookup name
    have found' : Table.lookup name _ = some _ := found'
    rw [found, found'] at slots
    cases slots with
    | some slots => exact .same here here' (.call slots)
  | _, _, _, .literal _, _, _, _, _, _, ⟨_, made, here⟩, ⟨_, made', here'⟩ => by
    obtain rfl := Except.ok.inj (made.symm.trans made')
    exact .same here here' (.terminal rfl)
  | _, _, _, .regex _, _, _, _, _, _, ⟨_, made, here⟩, ⟨_, made', here'⟩ => by
    obtain rfl := Except.ok.inj (made.symm.trans made')
    exact .same here here' (.terminal rfl)
  | _, _, _, .seq ts, _, _, twins, known, keep, ⟨_, here, made⟩, ⟨_, here', made'⟩ => by
    have inside : ∀ t ∈ ts, Term.KeepBindings backrefs t.seqItems :=
      fun t member => keep.right.mono (Term.seqItems_subset_all member)
    exact .same here here' (.seq (items_like twins known inside keep.left made made'))
  | _, _, _, .choice _, _, _, twins, known, keep, ⟨_, here, made⟩, ⟨_, here', made'⟩ =>
      .same here here' (.choice (alternatives_twins twins known keep made made'))
  | _, _, _, .list _ separator _, _, _, twins, known, keep, ⟨_, _, _, _, here, first, second⟩,
      ⟨_, _, _, _, here', first', second'⟩ =>
      .same here here' (.list (.term twins known keep.left first first') (.term twins known keep.right second second')
        (.inr ⟨rfl, Term.isCut_eraseCuts separator⟩))
  | _, _, _, .quant t _ _, _, _, twins, known, keep, ⟨_, _, here, made⟩, ⟨_, _, here', made'⟩ =>
      .same here here' (.quant (.term (t := t) twins known keep made made'))
  | _, _, _, .backref _ none, _, _, _, _, _, ⟨none, here, _⟩, ⟨none, here', _⟩ =>
      .same here here' (.backref .none)
  | s, _, _, .backref _ (some t), _, _, twins, known, keep, ⟨some _, here, _, made⟩, ⟨some _, here', _, made'⟩ =>
      .same here here'
        (.backref (.some (.term (s := { s with padding := none }) (t := t) twins known keep made made')))

theorem Twin.steps {id id' : ParserId} (twin : Twin d d' backrefs id id') : TwinSteps d d' backrefs id id' := by
  cases twin with
  | term twins known keep made made' => exact twinSteps_of_built twins known keep made made'
  | slot here here' body => exact .same here here' (.call body)

end Twins

/-- What a parser decides is upheld by its twin: it may only be fatal where the twin goes on. -/
theorem Twin.upholds {p p' : Program} {backrefs : List String} {fuel fuel' : Nat} (le : fuel ≤ fuel')
    {id id' : ParserId} (twin : Twin p.draft p'.draft backrefs id id') {b : Texts} (real : b.Real) (s : Slice) :
    (p.judge fuel id b s).Upholds true (p'.judge fuel' id' b s) := by
  induction fuel generalizing fuel' id id' b s with
  | zero => exact .inl rfl
  | succ fuel ih =>
    cases twin.steps with
    | @cut label inner here twin =>
      have here : p.parsers[id]? = some ⟨label, .cut inner⟩ := here
      have passed : p.judge (fuel + 1) id b s = p.judge fuel inner b s := by
        simp only [judge, here, Operator.judge]
      rw [passed]
      exact ih (Nat.le_of_succ_le le) twin real s
    | @same label operator operator' here here' like =>
      obtain ⟨fuel', rfl⟩ := Nat.exists_eq_succ_of_ne_zero (Nat.ne_zero_of_lt le)
      have here : p.parsers[id]? = some ⟨label, operator⟩ := here
      have here' : p'.parsers[id']? = some ⟨label, operator'⟩ := here'
      simp only [judge, here, here']
      refine Judge.operator_upholds (p.judge_honest fuel) like (binds_subset here) real ?_ label
      intro part part' twin b' rest leads
      exact ih (Nat.le_of_succ_le_succ le) twin leads.real rest

/-- Programs of a grammar with and without its cutpoints begin with twins. -/
theorem twins_ofGrammar {g : Grammar} {p p' : Program} (made : ofGrammar g = .ok p)
    (made' : ofGrammar g.eraseCuts = .ok p') (distinct : DistinctNames g.features)
    (distinct' : DistinctNames g.eraseCuts.features) (keeps : g.KeepsBindings) (rule : String) :
    Option.Rel (Twin p.draft p'.draft (Term.backrefNamesTable g)) (p.rules.get? rule) (p'.rules.get? rule) := by
  obtain ⟨s, opens, built, -, starts⟩ := opens_ofGrammar made distinct
  obtain ⟨⟨backrefs', names', padding'⟩, opens', built', -, starts'⟩ := opens_ofGrammar made' distinct'
  have known : s.backrefs = Term.backrefNamesTable g := opens.backrefs
  have referred : Term.backrefNamesTable g.eraseCuts = Term.backrefNamesTable g :=
    Term.backrefNamesTable_eraseCuts g
  obtain rfl : backrefs' = s.backrefs := opens'.backrefs.trans (referred.trans known.symm)
  have padding := (Padding.ofGrammar_eraseCuts opens.padding).symm.trans opens'.padding
  obtain rfl : s.padding = padding' := Except.ok.inj padding
  have twins : TwinNames p.draft p'.draft (Term.backrefNamesTable g) s.names names' :=
    .inside .outside known keeps opens built opens' built'
  rw [starts rule, starts' rule]
  exact twins.lookup rule

/-- A parser decides, in the depth that a parse is given, what its twin does in the depth that it is given. -/
theorem Twin.upholds_fuelFor {p p' : Program} {backrefs : List String} {id id' : ParserId}
    (twin : Twin p.draft p'.draft backrefs id id') {b : Texts} (real : b.Real) (input : Slice) :
    (p.judge (p.fuelFor input) id b input).Upholds true (p'.judge (p'.fuelFor input) id' b input) := by
  have upholds := twin.upholds (Nat.le_refl (p.fuelFor input)) real input
  rcases upholds with exhausted | fatal | same
  · exact .inl exhausted
  · exact .inr (.inl fatal)
  · by_cases ends : p.judge (p.fuelFor input) id b input = .exhausted
    · exact .inl ends
    · rw [same] at ends ⊢
      exact .inr (.inr (judge_fuelFor real ends).symm)

end Program

/-! ### Parses -/

/-- What a result says of another whose verdict upholds its own. -/
theorem Verdict.Shows.upheld {v v' : Verdict (Tree × Slice)} {r r' : Except Error (Tree × Slice)} (h : v.Shows r)
    (h' : v'.Shows r') (upholds : v.Upholds true v') (ends : r ≠ .error .endless) :
    (∀ tree rest, r = .ok (tree, rest) → r' = .ok (tree, rest)) ∧
      (∀ f, r = .error (.parse f) → ∃ f', r' = .error (.parse f')) ∧
      ∀ tree rest, r' = .ok (tree, rest) → r = .ok (tree, rest) ∨ ∃ f, r = .error (.fatal f) := by
  rcases upholds with rfl | ⟨-, rfl⟩ | rfl
  · cases h
    exact absurd rfl ends
  · cases h with
    | fatal => exact ⟨nofun, nofun, fun _ _ _ => .inr ⟨_, rfl⟩⟩
  · cases h with
    | matched =>
      cases h'
      exact ⟨fun _ _ => id, nofun, fun _ _ => .inl⟩
    | failed =>
      cases h'
      exact ⟨nofun, fun _ _ => ⟨_, rfl⟩, nofun⟩
    | fatal => exact ⟨nofun, nofun, fun _ _ _ => .inr ⟨_, rfl⟩⟩
    | exhausted => exact absurd rfl ends

namespace Parsers

variable {g : Grammar} {p p' : Parsers}

theorem compile_of_flat (flat : Term.isFlatTable g = true) (compiled : g.compile ⟨false, false⟩ = .ok p) :
    p.flat = g ∧ Program.ofGrammar g = .ok p.program := by
  obtain ⟨-, eliminated, made⟩ := Grammar.compile_without_cutpoints compiled
  obtain same := Except.ok.inj ((Grammar.eliminateStacks_of_flat flat).symm.trans eliminated)
  rw [← same] at made
  exact ⟨same.symm, made⟩

/-- **Cutpoints only remove successes.**  If the sequences of a grammar without stacks bind what its back
references need with and without its cutpoints, then a match is the same match without them, and where there is
no match that leaves a choice, there is none without them.  So a match without them is the same match with them,
or else the failure with them is fatal. -/
theorem parsePartial_eraseCuts (flat : Term.isFlatTable g = true) (compiled : g.compile ⟨false, false⟩ = .ok p)
    (compiled' : g.eraseCuts.compile ⟨false, false⟩ = .ok p') (keeps : g.KeepsBindings) (rule : String)
    (input : Slice) (ends : p.parsePartial rule input ≠ .error .endless) :
    (∀ tree rest, p.parsePartial rule input = .ok (tree, rest) →
        p'.parsePartial rule input = .ok (tree, rest)) ∧
      (∀ f, p.parsePartial rule input = .error (.parse f) →
        ∃ f', p'.parsePartial rule input = .error (.parse f')) ∧
      ∀ tree rest, p'.parsePartial rule input = .ok (tree, rest) →
        p.parsePartial rule input = .ok (tree, rest) ∨ ∃ f, p.parsePartial rule input = .error (.fatal f) := by
  have flat' : Term.isFlatTable g.eraseCuts = true := (Term.isFlatTable_eraseCuts g).trans flat
  obtain ⟨same, made⟩ := compile_of_flat flat compiled
  obtain ⟨same', made'⟩ := compile_of_flat flat' compiled'
  have distinct := same ▸ distinctNames compiled
  have distinct' := same' ▸ distinctNames compiled'
  have starts := Program.twins_ofGrammar made made' distinct distinct' keeps rule
  cases found : p.program.rules.get? rule with
  | none =>
    rw [found] at starts
    have unknown : p.parsePartial rule input = .error (.unknownRule rule) := by
      simp only [parsePartial, runPartial, found]
    have unknown' : p'.parsePartial rule input = .error (.unknownRule rule) := by
      cases found' : p'.program.rules.get? rule with
      | none => simp only [parsePartial, runPartial, found']
      | some slot =>
        rw [found'] at starts
        cases starts
    rw [unknown, unknown']
    refine ⟨fun tree rest parsed => ?_, fun f failed => ?_, fun tree rest parsed => ?_⟩
    · cases parsed
    · cases failed
    · cases parsed
  | some slot =>
    cases found' : p'.program.rules.get? rule with
    | none =>
      rw [found, found'] at starts
      cases starts
    | some slot' =>
      rw [found, found'] at starts
      cases starts with
      | some twin =>
        exact (shows_parsePartial found input).upheld (shows_parsePartial found' input)
          (twin.upholds_fuelFor Texts.real_unbound input) ends

/-- Two equal words behind a mark, or a word that may have marks in it.  The mark is a cutpoint. -/
def marked : Grammar :=
  ⟨[("item", .choice [
    .seq [.cut (.literal "#"), .capture "word" (.regex "[a-z]+"), .literal "=", .backref "word" none],
    .regex "[#a-z]+"])]⟩

theorem parsePartial_eraseCuts_marked : ∃ p p', marked.compile ⟨false, false⟩ = .ok p ∧
    marked.eraseCuts.compile ⟨false, false⟩ = .ok p' ∧
    (∃ f, p.parsePartial "item" (.ofText "#a=b") = .error (.fatal f)) ∧
    ∃ found, p'.parsePartial "item" (.ofText "#a=b") = .ok found := by
  have checked : (marked.compile ⟨false, false⟩).toOption.any (fun p =>
      match p.parsePartial "item" (.ofText "#a=b") with
      | .ok _ => false
      | .error .endless => false
      | .error _ => true) = true := by
    decide +kernel
  have checked' : (marked.eraseCuts.compile ⟨false, false⟩).toOption.any (fun p' =>
      (p'.parsePartial "item" (.ofText "#a=b")).isOk) = true := by
    decide +kernel
  cases compiled : marked.compile ⟨false, false⟩ with
  | error e =>
    rw [compiled] at checked
    cases checked
  | ok p =>
    cases compiled' : marked.eraseCuts.compile ⟨false, false⟩ with
    | error e =>
      rw [compiled'] at checked'
      cases checked'
    | ok p' =>
      simp only [compiled, Except.toOption, Option.any_some] at checked
      simp only [compiled', Except.toOption, Option.any_some] at checked'
      have ends : p.parsePartial "item" (.ofText "#a=b") ≠ .error .endless := by
        intro endless
        rw [endless] at checked
        cases checked
      obtain ⟨-, -, back⟩ := parsePartial_eraseCuts (g := marked) (by decide +kernel) compiled compiled'
        (by decide +kernel) "item" (.ofText "#a=b") ends
      cases parsed' : p'.parsePartial "item" (.ofText "#a=b") with
      | error e =>
        rw [parsed'] at checked'
        cases checked'
      | ok found =>
        refine ⟨p, p', rfl, rfl, (back _ _ parsed').resolve_left fun parsed => ?_, found, parsed'⟩
        rw [parsed] at checked
        cases checked

end Parsers
end GrammarKit
