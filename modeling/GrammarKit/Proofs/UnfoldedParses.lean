/-
Module: GrammarKit.Proofs.UnfoldedParses
Purpose: Parses with lists written out.  In a grammar without cutpoints and back references any lists may be written
  out as what they stand for: the parses match the same texts, leave the same rest, fail and run for ever alike.
Main exports: Grammar.Plain, Program.Unfolded, Program.Unfolded.agree_fuelFor, Parsers.parsePartial_unfolds
-/
import GrammarKit.Proofs.Adequacy
import GrammarKit.Proofs.Conformance
import GrammarKit.Proofs.ListUnfolding
import GrammarKit.Proofs.UncutGrammars
import GrammarKit.Proofs.UnfoldedLists

namespace GrammarKit

/-! ### Plain grammars -/

/-- A mention of anything but a cutpoint or a back reference. -/
def Mention.Plain : Mention → Prop
  | cut => False
  | backref _ => False
  | _ => True

instance : DecidablePred Mention.Plain
  | .definition _ => isTrue trivial
  | .reference _ => isTrue trivial
  | .capture _ => isTrue trivial
  | .backref _ => isFalse id
  | .cut => isFalse id

/-- A term without cutpoints and back references. -/
def Term.Plain (t : Term) : Prop :=
  ∀ m ∈ t.mentions, m.Plain

/-- A grammar without cutpoints and back references, nor in its local rules. -/
def Grammar.Plain (g : Grammar) : Prop :=
  ∀ m ∈ g.mentions, m.Plain

instance (g : Grammar) : Decidable g.Plain :=
  inferInstanceAs (Decidable (∀ m ∈ g.mentions, m.Plain))

/-- Without its stacks, a plain grammar is plain. -/
theorem Grammar.plain_eliminateStacks {g flat : Grammar} (h : g.eliminateStacks = .ok flat) (plain : g.Plain) :
    flat.Plain :=
  mentions_eliminateStacks ⟨fun _ _ => trivial, fun _ _ => trivial⟩ h plain

namespace Term

mutual
/-- Where no back reference is mentioned, no name is referred to. -/
theorem backrefNames_eq_nil : ∀ {t : Term}, t.Plain → t.backrefNames = []
  | rule _, _ => rfl
  | literal _, _ => rfl
  | regex _, _ => rfl
  | seq _, plain => backrefNamesAll_eq_nil plain
  | choice _, plain => backrefNamesAll_eq_nil plain
  | stack _, plain => backrefNamesAll_eq_nil plain
  | list _ _ _, plain => by
    obtain ⟨first, second⟩ := List.forall_mem_append.mp plain
    rw [backrefNames, backrefNames_eq_nil first, backrefNames_eq_nil second, List.append_nil]
  | quant t _ _, plain => backrefNames_eq_nil (t := t) plain
  | capture _ t, plain => backrefNames_eq_nil (t := t) (List.forall_mem_cons.mp plain).2
  | backref name _, plain => absurd (plain (.backref name) List.mem_cons_self) id
  | cut _, plain => absurd (plain .cut List.mem_cons_self) id
  | withRules t ⟨entries⟩, plain => by
    obtain ⟨inner, rules⟩ := List.forall_mem_append.mp plain
    rw [backrefNames, backrefNamesTable, backrefNames_eq_nil inner, backrefNamesEntries_eq_nil rules, List.append_nil]

theorem backrefNamesAll_eq_nil : ∀ {ts : List Term}, (∀ m ∈ mentionsAll ts, m.Plain) → backrefNamesAll ts = []
  | [], _ => rfl
  | _ :: _, plain => by
    obtain ⟨first, others⟩ := List.forall_mem_append.mp plain
    rw [backrefNamesAll, backrefNames_eq_nil first, backrefNamesAll_eq_nil others, List.append_nil]

theorem backrefNamesEntries_eq_nil : ∀ {entries : List (String × Term)}, (∀ m ∈ mentionsEntries entries, m.Plain) →
    backrefNamesEntries entries = []
  | [], _ => rfl
  | (_, _) :: _, plain => by
    obtain ⟨first, others⟩ := List.forall_mem_append.mp (List.forall_mem_cons.mp plain).2
    rw [backrefNamesEntries, backrefNames_eq_nil first, backrefNamesEntries_eq_nil others, List.append_nil]
end

theorem Plain.isCut {t : Term} (plain : t.Plain) : t.isCut = false :=
  isCut_of_mentions fun _ member cut => plain .cut (cut ▸ member)

/-- The term of a rule of a plain grammar. -/
theorem plain_of_lookup {name : String} {t : Term} {entries : List (String × Term)}
    (plain : Grammar.Plain ⟨entries⟩) (found : Table.lookup name entries = some t) : t.Plain :=
  (forall_mentionsEntries.mp plain _ (Table.mem_of_lookup found)).2

end Term

theorem Grammar.Plain.backrefNames {g : Grammar} (plain : g.Plain) : Term.backrefNamesTable g = [] := by
  obtain ⟨entries⟩ := g
  exact Term.backrefNamesEntries_eq_nil plain

/-- A plain grammar is plain with lists written out. -/
theorem Grammar.Unfolds.plain {g g' : Grammar} (unfolds : g.Unfolds g') (plain : g.Plain) : g'.Plain := by
  obtain ⟨entries⟩ := g
  obtain ⟨entries'⟩ := g'
  have each : Term.UnfoldsEntries entries entries' := unfolds
  exact each.mentions plain

namespace Program

section Unfoldings

variable (d d' : Draft)

/-- The names that can be seen inside some tables of rules, as they are and with lists written out. -/
inductive UnfoldedNames : Names → Names → Prop
  | outside : UnfoldedNames [] []
  | inside {outer outer' s names} {rules rules' : Grammar} : UnfoldedNames outer.names outer'.names →
      s.backrefs = [] → rules.Plain → rules.Unfolds rules' → Opens d outer rules s → BuiltTable d s rules →
      Opens d' outer' rules' { s with names := names } → BuiltTable d' { s with names := names } rules' →
      UnfoldedNames s.names names

/-- The parsers of a term as it is and with lists written out, and the slots of such parsers. -/
inductive Unfolded : ParserId → ParserId → Prop
  | term {s names label t t' id id'} : UnfoldedNames d d' s.names names → s.backrefs = [] → Term.Plain t →
      t.Unfolds t' → BuiltAt d s label t id → BuiltAt d' { s with names := names } label t' id' → Unfolded id id'
  | slot {slot slot' body body' : ParserId} : d.parsers[slot]? = some ⟨none, .call body⟩ →
      d'.parsers[slot']? = some ⟨none, .call body'⟩ → Unfolded body body' → Unfolded slot slot'

end Unfoldings

section Unfoldings

variable {d d' : Draft}

/-- A name means the slots of parsers that differ in lists written out, or nothing on both sides. -/
theorem UnfoldedNames.lookup {names names' : Names} (unfolded : UnfoldedNames d d' names names') (name : String) :
    Option.Rel (Unfolded d d') (Table.lookup name names) (Table.lookup name names') := by
  induction unfolded with
  | outside => exact .none
  | @inside outer outer' s names' rules rules' further bare plain unfolds opens built opens' built' ih =>
    obtain ⟨locals, same, order, -⟩ := opens.names
    obtain ⟨locals', same', order', -⟩ := opens'.names
    have same' : names' = locals' ++ outer'.names := same'
    obtain ⟨entries⟩ := rules
    obtain ⟨entries'⟩ := rules'
    have each : Term.UnfoldsEntries entries entries' := unfolds
    have order' : locals'.map (·.1) = locals.map (·.1) := by
      rw [order, order', Table.names, Table.names, each.names]
    by_cases inside : name ∈ locals.map (·.1)
    · have member := inside
      rw [order, List.mem_reverse, List.mem_filter] at member
      have rule : name ≠ paddingRule := by simpa using member.2
      have member' : name ∈ entries'.map (·.1) := by
        rw [each.names]
        exact member.1
      obtain ⟨t, slot, body, value, found, set, made⟩ := mem_of_builtEntries built member.1 rule
      obtain ⟨t', slot', body', value', found', set', made'⟩ := mem_of_builtEntries built' member' rule
      have both := each.lookup name
      rw [value, value'] at both
      cases both with
      | some here =>
        have body := Unfolded.term (.inside further bare plain unfolds opens built opens' built') bare
          (Term.plain_of_lookup plain value) here made made'
        rw [found, found']
        exact .some (.slot set set' body)
    · have absent : Table.lookup name locals = none :=
        Option.not_isSome_iff_eq_none.mp fun found => inside (Table.lookup_isSome.mp found)
      have absent' : Table.lookup name locals' = none := by
        refine Option.not_isSome_iff_eq_none.mp fun found => inside ?_
        rw [← order']
        exact Table.lookup_isSome.mp found
      rw [same, same', Table.lookup_append, Table.lookup_append, absent, absent', Option.none_or, Option.none_or]
      exact ih

/-- What such parsers do: the same with such parsers, or the first one is a list and the second one is that of what
the list stands for. -/
inductive UnfoldedSteps (d d' : Draft) (id id' : ParserId) : Prop
  | same {label operator operator'} : d.parsers[id]? = some ⟨label, operator⟩ →
      d'.parsers[id']? = some ⟨label, operator'⟩ → operator.Like false (Unfolded d d') operator' → operator.Plain →
      UnfoldedSteps d d' id id'
  | list {s label elementId separatorId style element separator} :
      d.parsers[id]? = some ⟨label, .list elementId separatorId style false⟩ →
      BuiltAt d' s label (Term.unfoldedList element separator style) id' → s.backrefs = [] →
      element.isCut = false → separator.isCut = false →
      (∀ {part}, BuiltAt d' s none element part → Unfolded d d' elementId part) →
      (∀ {part}, BuiltAt d' s none separator part → Unfolded d d' separatorId part) → UnfoldedSteps d d' id id'

section Parts

variable {s : Surroundings} {names : Names} (unfolded : UnfoldedNames d d' s.names names) (bare : s.backrefs = [])

include bare in
theorem bindName_eq_none (t : Term) : bindName s t = none := by
  rw [bindName, bare]
  cases t.bindingName? <;> rfl

include unfolded bare

theorem items_unfolded {whole whole' : ParserId} : ∀ {ts us : List Term} {items items' : List Item},
    (∀ t ∈ ts, t.Plain) → Term.UnfoldsAll ts us → BuiltItems d s whole ts items →
    BuiltItems d' { s with names := names } whole' us items' →
    List.Forall₂ (Item.Like false (Unfolded d d')) items items' ∧
      ∀ item ∈ items, item.bind = none ∧ item.cut = false
  | [], [], [], [], _, _, _, _ => ⟨.nil, List.forall_mem_nil _⟩
  | t :: ts, u :: us, item :: items, item' :: items', plain, ⟨first, rest⟩, ⟨_, bind, cut, made, others⟩,
      ⟨_, bind', cut', made', others'⟩ => by
    obtain ⟨known, plain⟩ := List.forall_mem_cons.mp plain
    obtain ⟨likes, plains⟩ := items_unfolded plain rest others others'
    have unbound : item.bind = none := bind.trans (bindName_eq_none bare t)
    have unbound' : item'.bind = none := bind'.trans (bindName_eq_none bare u)
    have uncut : item.cut = false := cut.trans known.isCut
    have uncut' : item'.cut = item.cut := by rw [cut', cut, first.isCut]
    exact ⟨.cons ⟨.term unfolded bare known first made made', unbound'.trans unbound.symm, .inl uncut'⟩ likes,
      List.forall_mem_cons.mpr ⟨⟨unbound, uncut⟩, plains⟩⟩

theorem alternatives_unfolded {whole whole' : ParserId} : ∀ {ts us : List Term} {ids ids' : List ParserId},
    (∀ t ∈ ts, t.Plain) → Term.UnfoldsAll ts us → BuiltAll d s whole ts ids →
    BuiltAll d' { s with names := names } whole' us ids' → List.Forall₂ (Unfolded d d') ids ids'
  | [], [], [], [], _, _, _, _ => .nil
  | _ :: _, _ :: _, _ :: _, _ :: _, plain, ⟨first, rest⟩, ⟨_, made, others⟩, ⟨_, made', others'⟩ => by
    obtain ⟨known, plain⟩ := List.forall_mem_cons.mp plain
    exact .cons (.term unfolded bare known first made made') (alternatives_unfolded plain rest others others')

end Parts

/-- The parsers of a term as it is and with lists written out do the same, or the term is a list. -/
theorem unfoldedSteps_of_built : ∀ {s names label t u id id'}, UnfoldedNames d d' s.names names → s.backrefs = [] →
    Term.Plain t → t.Unfolds u → BuiltAt d s label t id → BuiltAt d' { s with names := names } label u id' →
    UnfoldedSteps d d' id id'
  | _, _, _, .capture _ t, _, _, _, unfolded, bare, plain, ⟨_, rfl, inner⟩, made, made' =>
      unfoldedSteps_of_built (t := t) unfolded bare (List.forall_mem_cons.mp plain).2 inner made made'
  | s, names, label, .withRules t rules, _, id, id', unfolded, bare, plain, ⟨_, rules', rfl, inner, table⟩,
      ⟨within, opens, built, made⟩, ⟨⟨backrefs', names', padding'⟩, opens', built', made'⟩ => by
    obtain ⟨known, rulesPlain⟩ := List.forall_mem_append.mp plain
    obtain rfl : backrefs' = within.backrefs := opens'.backrefs.trans opens.backrefs.symm
    have padding := (Padding.ofGrammar_unfolds table opens.padding).symm.trans opens'.padding
    obtain rfl : within.padding = padding' := Except.ok.inj padding
    have bare' : within.backrefs = [] := opens.backrefs.trans bare
    exact unfoldedSteps_of_built (.inside unfolded bare' rulesPlain table opens built opens' built') bare' known inner
      made made'
  | _, _, _, .cut t, _, _, _, _, _, plain, _, _, _ => absurd (plain .cut List.mem_cons_self) id
  | _, _, _, .rule name, _, _, _, unfolded, _, _, rfl, ⟨_, found, here⟩, ⟨_, found', here'⟩ => by
    have slots := unfolded.lookup name
    have found' : Table.lookup name _ = some _ := found'
    rw [found, found'] at slots
    cases slots with
    | some slots => exact .same here here' (.call slots) trivial
  | _, _, _, .literal _, _, _, _, _, _, _, rfl, ⟨_, made, here⟩, ⟨_, made', here'⟩ => by
    obtain rfl := Except.ok.inj (made.symm.trans made')
    exact .same here here' (.terminal rfl) trivial
  | _, _, _, .regex _, _, _, _, _, _, _, rfl, ⟨_, made, here⟩, ⟨_, made', here'⟩ => by
    obtain rfl := Except.ok.inj (made.symm.trans made')
    exact .same here here' (.terminal rfl) trivial
  | _, _, _, .seq ts, _, _, _, unfolded, bare, plain, ⟨_, rfl, each⟩, ⟨_, here, made⟩, ⟨_, here', made'⟩ => by
    obtain ⟨likes, plains⟩ := items_unfolded unfolded bare (Term.forall_mentionsAll.mp plain) each made made'
    exact .same here here' (.seq likes) plains
  | _, _, _, .choice ts, _, _, _, unfolded, bare, plain, ⟨_, rfl, each⟩, ⟨_, here, made⟩, ⟨_, here', made'⟩ =>
      .same here here'
        (.choice (alternatives_unfolded unfolded bare (Term.forall_mentionsAll.mp plain) each made made')) trivial
  | s, names, _, .list element separator style, _, _, _, unfolded, bare, plain,
      ⟨element', separator', first, second, same⟩, ⟨elementId, _, separatorId, _, here, made, made'⟩, built => by
    obtain ⟨known, known'⟩ := List.forall_mem_append.mp plain
    have uncut : separator.isCut = false := Term.Plain.isCut known'
    rw [uncut] at here
    rcases same with rfl | rfl
    · obtain ⟨_, _, _, _, here', found, found'⟩ := built
      rw [second.isCut, uncut] at here'
      exact .same here here' (.list (.term unfolded bare known first made found)
        (.term unfolded bare known' second made' found') (.inl rfl)) rfl
    · exact .list here built bare (first.isCut.trans (Term.Plain.isCut known)) (second.isCut.trans uncut)
        (.term unfolded bare known first made) (.term unfolded bare known' second made')
  | _, _, _, .quant t _ _, _, _, _, unfolded, bare, plain, ⟨_, rfl, inner⟩, ⟨_, _, here, made⟩, ⟨_, _, here', made'⟩ =>
      .same here here' (.quant (.term (t := t) unfolded bare plain inner made made')) trivial
  | _, _, _, .backref name _, _, _, _, _, _, plain, _, _, _ => absurd (plain (.backref name) List.mem_cons_self) id

theorem Unfolded.steps {id id' : ParserId} (unfolded : Unfolded d d' id id') : UnfoldedSteps d d' id id' := by
  cases unfolded with
  | term names bare plain unfolds made made' => exact unfoldedSteps_of_built names bare plain unfolds made made'
  | slot here here' body => exact .same here here' (.call body) trivial

/-- The alternatives of a choice. -/
theorem builtAll_forall₂ {s : Surroundings} {whole : ParserId} : ∀ {ts : List Term} {ids : List ParserId},
    BuiltAll d s whole ts ids → List.Forall₂ (BuiltAt d s none) ts ids
  | [], [], _ => .nil
  | _ :: _, _ :: _, ⟨_, made, others⟩ => .cons made (builtAll_forall₂ others)

/-- The items of a sequence that commits to nothing and binds nothing. -/
theorem plainItems_of_built {s : Surroundings} (bare : s.backrefs = []) {whole : ParserId} :
    ∀ {ts : List Term} {items : List Item}, (∀ t ∈ ts, t.isCut = false) → BuiltItems d s whole ts items →
      (∀ item ∈ items, item.bind = none ∧ item.cut = false) ∧
        List.Forall₂ (fun t item => BuiltAt d s none t item.parser) ts items
  | [], [], _, _ => ⟨List.forall_mem_nil _, .nil⟩
  | t :: ts, item :: items, uncut, ⟨_, bind, cut, made, others⟩ => by
    obtain ⟨here, uncut⟩ := List.forall_mem_cons.mp uncut
    obtain ⟨plains, builts⟩ := plainItems_of_built bare uncut others
    exact ⟨List.forall_mem_cons.mpr ⟨⟨bind.trans (bindName_eq_none bare t), cut.trans here⟩, plains⟩,
      .cons made builts⟩

end Unfoldings

/-! ### What the parsers decide -/

section Judges

variable {p p' : Program} {early late : Prop} {b : Texts}

/-- A parser decides what its operator does, if it is deep enough. -/
theorem judge_upTo {id : ParserId} {label : Option String} {operator : Operator}
    (here : p.parsers[id]? = some ⟨label, operator⟩) {fuel : Nat} (deep : late ∨ 0 < fuel) (s : Slice) :
    (operator.judge (p.judge (fuel - 1)) label b s).UpTo late (p.judge fuel id b s) := by
  cases fuel with
  | zero => exact .inr ⟨deep.resolve_right (Nat.lt_irrefl 0), rfl⟩
  | succ fuel =>
    simp only [judge, here]
    exact .refl _

/-- A sequence of plain items is run as such. -/
theorem sequence_upTo {s : Surroundings} (bare : s.backrefs = []) {ts : List Term} {id : ParserId}
    {label : Option String} (uncut : ∀ t ∈ ts, t.isCut = false) (built : BuiltAt p.draft s label (.seq ts) id)
    {fuel : Nat} (deep : late ∨ 0 < fuel) :
    ∃ ids, List.Forall₂ (BuiltAt p.draft s none) ts ids ∧
      ∀ slice, (Judge.sequence label ((ids.map (p.judge (fuel - 1))).map Judge.plain) b slice).UpTo late
        (p.judge fuel id b slice) := by
  obtain ⟨items, here, made⟩ := built
  obtain ⟨plains, builts⟩ := plainItems_of_built bare uncut made
  refine ⟨items.map Item.parser, List.forall₂_map_right_iff.mpr builts, fun slice => ?_⟩
  have near := judge_upTo (b := b) here deep slice
  rw [Operator.judge, Judge.steps_plain plains] at near
  simpa only [List.map_map, Function.comp_def] using near

section Lists

variable {element separator : Judge} {s : Surroundings} {first second : Term} {fuel : Nat} {style : ListStyle}
  (honest : element.Honest) (honest' : separator.Honest) (real : b.Real) (bare : s.backrefs = [])
  (uncut : first.isCut = false) (uncut' : second.isCut = false)
  (elements : ∀ {depth part}, depth ≤ fuel → fuel ≤ depth + 3 → BuiltAt p.draft s none first part →
    Judge.Agree early late b element (p.judge depth part))
  (separators : ∀ {depth part}, depth ≤ fuel → fuel ≤ depth + 3 → BuiltAt p.draft s none second part →
    Judge.Agree early late b separator (p.judge depth part))
  (deep : late ∨ 3 ≤ fuel)

include bare uncut uncut' elements separators deep

theorem pair_of_built {part : ParserId} (built : BuiltAt p.draft s none (.seq [second, first]) part) (slice : Slice) :
    (Judge.markAndElement element separator b slice).Agrees early late Judge.Gathers
      (p.judge (fuel - 2) part b slice) := by
  have uncuts : ∀ t ∈ [second, first], t.isCut = false :=
    List.forall_mem_cons.mpr ⟨uncut', List.forall_mem_singleton.mpr uncut⟩
  have positive : late ∨ 0 < fuel - 2 := deep.imp_right fun deep => by omega
  obtain ⟨ids, builts, near⟩ := sequence_upTo (b := b) bare uncuts built positive
  cases builts with
  | cons made builts =>
    cases builts with
    | cons made' builts =>
      cases builts
      exact (Judge.markAndElement_agrees (separators (by omega) (by omega) made) (elements (by omega) (by omega) made')
        none slice).upTo (near slice)

include honest honest' real

theorem rest_of_built {ids : List ParserId}
    (builts : List.Forall₂ (BuiltAt p.draft s none) (Term.listRest first second style.trailing) ids) :
    Judge.Unfolds early late b ⟨element, separator, style, false⟩ ((ids.map (p.judge (fuel - 1))).map Judge.plain) := by
  have positive : late ∨ 0 < fuel - 1 := deep.imp_right fun deep => by omega
  rw [Term.listRest] at builts
  cases builts with
  | cons made builts =>
    obtain ⟨pair, -, here, madePair⟩ := made
    have pairs := pair_of_built bare uncut uncut' elements separators deep madePair
    have repeats := judge_upTo (b := b) here positive
    cases trailing : style.trailing with
    | false =>
      rw [trailing, if_neg Bool.false_ne_true] at builts
      cases builts
      have unfolds : Judge.Unfolds early late b ⟨element, separator, style, false⟩ _ :=
        Judge.unfolds_rest honest honest' real pairs separator
          (fun ends => absurd (trailing.symm.trans ends) Bool.false_ne_true) none none
      rw [trailing, if_neg Bool.false_ne_true] at unfolds
      exact Judge.Unfolds.upTo [_] unfolds (.cons repeats .nil)
    | true =>
      rw [trailing, if_pos rfl] at builts
      cases builts with
      | cons made builts =>
        cases builts
        obtain ⟨last, -, here', madeLast⟩ := made
        have unfolds : Judge.Unfolds early late b ⟨element, separator, style, false⟩ _ :=
          Judge.unfolds_rest honest honest' real pairs (p.judge (fuel - 2) last)
            (fun _ => separators (by omega) (by omega) madeLast) none none
        rw [trailing, if_pos rfl] at unfolds
        exact Judge.Unfolds.upTo [_, _] unfolds
          (.cons repeats (.cons (judge_upTo (b := b) here' positive) .nil))

/-- The alternative in which a list begins with an element. -/
theorem starting_of_built {part : ParserId}
    (built : BuiltAt p.draft s none (.seq (first :: Term.listRest first second style.trailing)) part)
    (label : Option String) (slice : Slice) :
    ((element b slice).andThen (fun found => Judge.listFrom label ⟨element, separator, style, false⟩ b
        (slice.chars.length + 2) ([found.1], found.2)) .failed).Agrees
      early late SameText (p.judge fuel part b slice) := by
  have uncuts : ∀ t ∈ first :: Term.listRest first second style.trailing, t.isCut = false :=
    List.forall_mem_cons.mpr ⟨uncut, Term.isCut_listRest first second style.trailing⟩
  have positive : late ∨ 0 < fuel := deep.imp_right fun deep => by omega
  have enough : slice.chars.length < slice.chars.length + 2 := by omega
  obtain ⟨ids, builts, near⟩ := sequence_upTo (b := b) bare uncuts built positive
  cases builts with
  | cons madeElement builts =>
    have rest := rest_of_built honest honest' real bare uncut uncut' elements separators deep builts
    have elements := elements (Nat.sub_le fuel 1) (by omega) madeElement
    exact (Judge.sequence_unfolds honest real elements rest label none enough).upTo (near slice)

/-- The alternative in which a list begins with a separator. -/
theorem leading_of_built {part : ParserId}
    (built : BuiltAt p.draft s none (.seq (second :: first :: Term.listRest first second style.trailing)) part)
    (label : Option String) (slice : Slice) :
    (((Judge.pair ⟨element, separator, style, false⟩ b false slice).andThen Judge.leadingSlots .failed).andThen
      (Judge.listFrom label ⟨element, separator, style, false⟩ b (slice.chars.length + 2)) .failed).Agrees
        early late SameText (p.judge fuel part b slice) := by
  have uncuts : ∀ t ∈ second :: first :: Term.listRest first second style.trailing, t.isCut = false :=
    List.forall_mem_cons.mpr
      ⟨uncut', List.forall_mem_cons.mpr ⟨uncut, Term.isCut_listRest first second style.trailing⟩⟩
  have positive : late ∨ 0 < fuel := deep.imp_right fun deep => by omega
  have enough : slice.chars.length < slice.chars.length + 2 := by omega
  obtain ⟨ids, builts, near⟩ := sequence_upTo (b := b) bare uncuts built positive
  cases builts with
  | cons madeMark builts =>
    cases builts with
    | cons madeElement builts =>
      have rest := rest_of_built honest honest' real bare uncut uncut' elements separators deep builts
      have marks := separators (Nat.sub_le fuel 1) (by omega) madeMark
      have elements := elements (Nat.sub_le fuel 1) (by omega) madeElement
      exact (Judge.sequence_unfolds_leading honest honest' real marks elements rest label none enough).upTo (near slice)

/-- A parser of what a list stands for does what the list does. -/
theorem list_of_built {label : Option String} {id : ParserId}
    (built : BuiltAt p.draft s label (Term.unfoldedList first second style) id) :
    Judge.Agree early late b (Judge.list label ⟨element, separator, style, false⟩) (p.judge (fuel + 1) id) := by
  obtain ⟨alternatives, here, made⟩ := built
  have operated : p.judge (fuel + 1) id b = Judge.choice label (alternatives.map (p.judge fuel)) b := by
    funext slice
    simp only [judge, show p.parsers[id]? = _ from here, Operator.judge]
  intro slice
  rw [operated]
  cases builtAll_forall₂ made with
  | @cons _ starting _ _ madeStarting madeOthers =>
    have starts :=
      starting_of_built honest honest' real bare uncut uncut' elements separators deep madeStarting label
    cases leading : style.leading with
    | false =>
      rw [leading, if_neg Bool.false_ne_true] at madeOthers
      cases madeOthers
      -- a list that may not begin with a separator has no second alternative
      have whole := Judge.list_unfolds label label (p.judge fuel starting) starts
        fun leads => absurd (leading.symm.trans leads) Bool.false_ne_true
      rw [leading, if_neg Bool.false_ne_true] at whole
      exact whole slice
    | true =>
      rw [leading, if_pos rfl] at madeOthers
      cases madeOthers with
      | @cons _ other _ _ madeLeading madeOthers =>
        cases madeOthers
        have leads :=
          leading_of_built honest honest' real bare uncut uncut' elements separators deep madeLeading label
        have whole := Judge.list_unfolds label label (p.judge fuel other) starts fun _ => leads
        rw [leading, if_pos rfl] at whole
        exact whole slice

end Lists

/-! ### One parser for another -/

/-- What parsers of lists decide is decided with lists written out, four times as deep. -/
theorem Unfolded.agree_later {id id' : ParserId} (unfolded : Unfolded p.draft p'.draft id id') (real : b.Real)
    {fuel fuel' : Nat} (le : 4 * fuel ≤ fuel') :
    Judge.Agree True False b (p.judge fuel id) (p'.judge fuel' id') := by
  induction fuel generalizing fuel' id id' with
  | zero => exact fun _ => .early trivial
  | succ fuel ih =>
    obtain ⟨fuel', rfl⟩ := Nat.exists_eq_succ_of_ne_zero (n := fuel') (by omega)
    cases unfolded.steps with
    | @same label operator operator' here here' like plain =>
      have here : p.parsers[id]? = some ⟨label, operator⟩ := here
      have here' : p'.parsers[id']? = some ⟨label, operator'⟩ := here'
      simp only [judge, here, here']
      exact Judge.operator_agrees like plain (fun parts => ih parts (by omega)) label
    | @list s label elementId separatorId style element separator here built bare uncut uncut' elements separators =>
      have here : p.parsers[id]? = some ⟨label, .list elementId separatorId style false⟩ := here
      simp only [judge, here, Operator.judge]
      -- the choice, a sequence, the repetition and a pair stand above an element that was a part of the list
      exact list_of_built (p.judge_honest fuel elementId) (p.judge_honest fuel separatorId) real bare uncut uncut'
        (fun _ _ made => ih (elements made) (by omega)) (fun _ _ made => ih (separators made) (by omega))
        (.inr (by omega)) built

/-- What is decided with lists written out is decided by the parsers of lists, as deep. -/
theorem Unfolded.agree_earlier {id id' : ParserId} (unfolded : Unfolded p.draft p'.draft id id') (real : b.Real)
    {fuel fuel' : Nat} (le : fuel' ≤ fuel) :
    Judge.Agree False True b (p.judge fuel id) (p'.judge fuel' id') := by
  induction fuel' using Nat.strongRecOn generalizing fuel id id' with
  | ind fuel' ih =>
    cases fuel' with
    | zero => exact fun _ => .late trivial
    | succ fuel' =>
      obtain ⟨fuel, rfl⟩ := Nat.exists_eq_succ_of_ne_zero (n := fuel) (by omega)
      cases unfolded.steps with
      | @same label operator operator' here here' like plain =>
        have here : p.parsers[id]? = some ⟨label, operator⟩ := here
        have here' : p'.parsers[id']? = some ⟨label, operator'⟩ := here'
        simp only [judge, here, here']
        exact Judge.operator_agrees like plain
          (fun parts => ih fuel' (Nat.lt_succ_self _) parts (Nat.le_of_succ_le_succ le)) label
      | @list s label elementId separatorId style element separator here built bare uncut uncut' elements separators =>
        have here : p.parsers[id]? = some ⟨label, .list elementId separatorId style false⟩ := here
        simp only [judge, here, Operator.judge]
        exact list_of_built (p.judge_honest fuel elementId) (p.judge_honest fuel separatorId) real bare uncut uncut'
          (fun within _ made => ih _ (Nat.lt_succ_of_le within) (elements made) (by omega))
          (fun within _ made => ih _ (Nat.lt_succ_of_le within) (separators made) (by omega)) (.inl trivial) built

/-- In the depths that parses are given, parsers decide the same with lists written out. -/
theorem Unfolded.agree_fuelFor {id id' : ParserId} (unfolded : Unfolded p.draft p'.draft id id') (real : b.Real)
    (input : Slice) :
    (p.judge (p.fuelFor input) id b input).Agrees False False SameText (p'.judge (p'.fuelFor input) id' b input) := by
  have later := unfolded.agree_later real (Nat.le_refl (4 * p.fuelFor input)) input
  have earlier := unfolded.agree_earlier real (Nat.le_refl (p'.fuelFor input)) input
  by_cases ends : p.judge (p.fuelFor input) id b input = .exhausted
  · have ends' : p'.judge (p'.fuelFor input) id' b input = .exhausted := by
      by_contra ends'
      have found := earlier.ends_before ends'
      rw [← judge_fuelFor real found] at found
      exact found ends
    rw [ends, ends']
    exact .exhausted
  · obtain ⟨ends', agrees⟩ := later.ends_after ends
    rw [judge_fuelFor real ends']
    exact agrees

end Judges

/-! ### Programs -/

/-- Programs of a plain grammar as it is and with lists written out begin with such parsers. -/
theorem unfolded_ofGrammar {g g' : Grammar} {p p' : Program} (made : ofGrammar g = .ok p)
    (made' : ofGrammar g' = .ok p') (distinct : DistinctNames g.features) (distinct' : DistinctNames g'.features)
    (plain : g.Plain) (unfolds : g.Unfolds g') (rule : String) :
    Option.Rel (Unfolded p.draft p'.draft) (p.rules.get? rule) (p'.rules.get? rule) := by
  obtain ⟨s, opens, built, -, starts⟩ := opens_ofGrammar made distinct
  obtain ⟨⟨backrefs', names', padding'⟩, opens', built', -, starts'⟩ := opens_ofGrammar made' distinct'
  have bare : s.backrefs = [] := opens.backrefs.trans plain.backrefNames
  have bare' : backrefs' = [] := opens'.backrefs.trans (unfolds.plain plain).backrefNames
  obtain rfl : backrefs' = s.backrefs := bare'.trans bare.symm
  have padding := (Padding.ofGrammar_unfolds unfolds opens.padding).symm.trans opens'.padding
  obtain rfl : s.padding = padding' := Except.ok.inj padding
  have names : UnfoldedNames p.draft p'.draft s.names names' :=
    .inside .outside bare plain unfolds opens built opens' built'
  rw [starts rule, starts' rule]
  exact names.lookup rule

end Program

/-! ### Parses -/

/-- Results that differ in the shape of trees, and in what failures say of the place and of what was expected. -/
inductive SameParse : Except Error (Tree × Slice) → Except Error (Tree × Slice) → Prop
  | matched {tree tree' : Tree} {rest : Slice} : tree'.chars = tree.chars →
      SameParse (.ok (tree, rest)) (.ok (tree', rest))
  | failed {f f'} : SameParse (.error (.parse f)) (.error (.parse f'))
  | unknownRule {rule} : SameParse (.error (.unknownRule rule)) (.error (.unknownRule rule))
  | endless : SameParse (.error .endless) (.error .endless)

/-- What verdicts that agree show. -/
theorem Verdict.Agrees.shows {v v' : Verdict (Tree × Slice)} {r r' : Except Error (Tree × Slice)}
    (h : v.Agrees False False SameText v') (shows : v.Shows r) (shows' : v'.Shows r') : SameParse r r' := by
  cases h with
  | @matched value value' same =>
    cases shows
    cases shows'
    obtain ⟨tree', rest'⟩ := value'
    obtain ⟨chars, rfl⟩ := same
    exact .matched chars
  | failed =>
    cases shows
    cases shows'
    exact .failed
  | exhausted =>
    cases shows
    cases shows'
    exact .endless
  | early never => exact never.elim
  | late never => exact never.elim

namespace Parsers

variable {g g' : Grammar} {p p' : Parsers}

/-- **Delimited lists do what they stand for.**  In a grammar without cutpoints and back references, any lists may be
written out as an ordered choice of sequences: every parse then matches a tree of the same text and leaves the same
rest, or fails, or runs for ever, just as before. -/
theorem parsePartial_unfolds (plain : g.Plain) (unfolds : g.Unfolds g') {validate validate' : Bool}
    (compiled : g.compile ⟨validate, false⟩ = .ok p) (compiled' : g'.compile ⟨validate', false⟩ = .ok p')
    (rule : String) (input : Slice) : SameParse (p.parsePartial rule input) (p'.parsePartial rule input) := by
  obtain ⟨-, eliminated, made⟩ := Grammar.compile_without_cutpoints compiled
  obtain ⟨-, eliminated', made'⟩ := Grammar.compile_without_cutpoints compiled'
  have plainly := Grammar.plain_eliminateStacks eliminated plain
  have flats := Grammar.unfolds_eliminateStacks unfolds eliminated eliminated'
  have starts := Program.unfolded_ofGrammar made made' (distinctNames compiled) (distinctNames compiled') plainly flats
    rule
  cases found : p.program.rules.get? rule with
  | none =>
    rw [found] at starts
    cases found' : p'.program.rules.get? rule with
    | none =>
      simp only [parsePartial, runPartial, found, found']
      exact .unknownRule
    | some slot =>
      rw [found'] at starts
      cases starts
  | some slot =>
    cases found' : p'.program.rules.get? rule with
    | none =>
      rw [found, found'] at starts
      cases starts
    | some slot' =>
      rw [found, found'] at starts
      cases starts with
      | some unfolded =>
        exact (unfolded.agree_fuelFor Texts.real_unbound input).shows (shows_parsePartial found input)
          (shows_parsePartial found' input)

/-- Words between parentheses, which may be empty, with commas before, between and after them. -/
def words (list : Term) : Grammar :=
  ⟨[("word", .regex "[a-z]*"), ("words", .seq [.literal "(", list, .literal ")"])]⟩

/-- Any words, and commas also at the start and at the end. -/
def commaWords : Grammar :=
  words (.list (.rule "word") (.literal ",") ⟨.leftToRight, true, true⟩)

/-- The same with the list written out. -/
def unfoldedWords : Grammar :=
  words (.unfoldedList (.rule "word") (.literal ",") ⟨.leftToRight, true, true⟩)

theorem parsePartial_unfolds_words : ∃ p p', commaWords.compile ⟨true, false⟩ = .ok p ∧
    unfoldedWords.compile ⟨true, false⟩ = .ok p' ∧
    ∃ tree tree' rest, p.parsePartial "words" (.ofText "(,a,,b,)-") = .ok (tree, rest) ∧
      p'.parsePartial "words" (.ofText "(,a,,b,)-") = .ok (tree', rest) ∧ tree'.chars = tree.chars := by
  have unfolds : commaWords.Unfolds unfoldedWords :=
    ⟨rfl, rfl, rfl, ⟨_, rfl, rfl, ⟨_, _, rfl, rfl, .inr rfl⟩, rfl, trivial⟩, trivial⟩
  have checked : (commaWords.compile ⟨true, false⟩).toOption.any (fun p =>
      (p.parsePartial "words" (.ofText "(,a,,b,)-")).isOk) = true := by
    decide +kernel
  have checked' : (unfoldedWords.compile ⟨true, false⟩).isOk = true := by
    decide +kernel
  cases compiled : commaWords.compile ⟨true, false⟩ with
  | error e =>
    rw [compiled] at checked
    cases checked
  | ok p =>
    cases compiled' : unfoldedWords.compile ⟨true, false⟩ with
    | error e =>
      rw [compiled'] at checked'
      cases checked'
    | ok p' =>
      have same := parsePartial_unfolds (by decide) unfolds compiled compiled' "words" (.ofText "(,a,,b,)-")
      simp only [compiled, Except.toOption, Option.any_some] at checked
      cases parsed : p.parsePartial "words" (.ofText "(,a,,b,)-") with
      | error e =>
        rw [parsed] at checked
        cases checked
      | ok found =>
        rw [parsed] at same
        generalize parsed' : p'.parsePartial "words" (.ofText "(,a,,b,)-") = result at same
        cases same with
        | matched chars => exact ⟨p, p', rfl, rfl, _, _, _, parsed, parsed', chars⟩

end Parsers
end GrammarKit
