/-
Module: GrammarKit.Proofs.Records
Purpose: What the generic tree of a parse holds.  The term of a rule says which values are added to the
  branch of the rule and in which order: what its terminals matched, branches of the rules it refers to and
  of its captures, and the bookkeeping between them.  Every branch that a parsed tree becomes is a record in
  this sense, all the way down.
Main exports: Enters, Recorded, Enters.mem_parts, Holds.one_of_mem, Parsers.recorded_of_parsePartial
-/
import GrammarKit.Proofs.Bridge
import GrammarKit.Proofs.SourceParts

namespace GrammarKit

namespace Generic

/-! ### What is held -/

namespace Holds

variable {counters : Counters} {entries : Entries} {b b' : Branch} {name : String} {node : Node}

theorem fitting (h : Holds counters entries b) : Fitting counters entries := by
  intro name single
  have here := h.field name
  rw [single] at here
  generalize entries.values name = values at here
  generalize b.get? name = present at here
  cases here with
  | absent => exact Nat.zero_le 1
  | one => exact Nat.le_refl 1

/-- A value that could be added is behind the others. -/
theorem of_add (h : Holds counters entries b) (added : b.add name node (counters.isSingle name) = .ok b') :
    Holds counters (entries ++ [(name, node)]) b' := by
  have fits : Fitting counters (entries ++ [(name, node)]) := by
    intro other single
    rw [Entries.values_append]
    by_cases same : other = name
    · subst same
      -- a field for one value takes none besides the one it has
      have here := h.field other
      unfold Branch.add at added
      rw [single] at here added
      rw [Entries.values_cons_self, Entries.values_nil]
      generalize entries.values other = values at here
      generalize b.get? other = present at here added
      cases here with
      | absent => exact Nat.le_refl 1
      | one => cases added
    · rw [Entries.values_cons_of_ne same, Entries.values_nil, List.append_nil]
      exact h.fitting other single
  obtain ⟨b'', again, holds, -⟩ := h.add fits
  obtain rfl := Except.ok.inj (again.symm.trans added)
  exact holds

theorem mem_of_many (h : Holds counters entries b) (member : node ∈ b.many name) : (name, node) ∈ entries := by
  have here := h.field name
  rw [← Entries.mem_values]
  unfold Branch.many at member
  generalize entries.values name = values at here ⊢
  generalize b.get? name = present at here member
  generalize counters.isSingle name = single at here
  cases here with
  | absent => cases member
  | one => cases member
  | many => exact member

theorem mem_of_one (h : Holds counters entries b) (found : b.one? name = some node) : (name, node) ∈ entries := by
  have here := h.field name
  rw [← Entries.mem_values]
  unfold Branch.one? at found
  generalize entries.values name = values at here ⊢
  generalize b.get? name = present at here found
  generalize counters.isSingle name = single at here
  cases here with
  | absent => cases found
  | one =>
    obtain rfl := Option.some.inj found
    exact List.mem_cons_self
  | many => cases found

/-- A value of a field for one value is found there. -/
theorem one_of_mem (h : Holds counters entries b) (single : counters.isSingle name = true)
    (member : (name, node) ∈ entries) : b.one? name = some node := by
  have here := h.field name
  rw [← Entries.mem_values] at member
  unfold Branch.one?
  rw [single] at here
  generalize entries.values name = values at here member
  generalize b.get? name = present at here
  cases here with
  | absent => cases member
  | one =>
    obtain rfl := List.mem_singleton.mp member
    rfl

/-- A field for several values holds all of them in order. -/
theorem many_eq_values (h : Holds counters entries b) (several : counters.isSingle name = false) :
    b.many name = entries.values name := by
  have here := h.field name
  unfold Branch.many
  rw [several] at here
  generalize entries.values name = values at here
  generalize b.get? name = present at here
  cases here with
  | absent => rfl
  | many => rfl

end Holds

theorem leavesField_of_blank : ∀ {field : Field Node}, field.values = [] → Node.leavesField field = []
  | .many [], _ => rfl

/-- If all fields but one are blank, the leaves are those of that one. -/
theorem leavesFields_eq {name : String} : ∀ {fields : List (String × Field Node)},
    (fields.map (·.1)).Pairwise (· < ·) → (∀ entry ∈ fields, entry.1 ≠ name → entry.2.values = []) →
      Node.leavesFields fields = ((Table.lookup name fields).map Node.leavesField).getD []
  | [], _, _ => rfl
  | (other, field) :: fields, ordered, blank => by
    obtain ⟨above, ordered⟩ := List.pairwise_cons.mp ordered
    have others := leavesFields_eq ordered fun entry member => blank entry (List.mem_cons_of_mem _ member)
    rw [Node.leavesFields, Table.lookup, others]
    split
    · next same =>
      subst same
      have absent : Table.lookup other fields = none := by
        rw [← Option.not_isSome_iff_eq_none, Table.lookup_isSome]
        exact fun member => String.lt_irrefl other (above other member)
      rw [absent]
      exact List.append_nil _
    · next ne => rw [leavesField_of_blank (blank _ List.mem_cons_self ne), List.nil_append]

/-- A branch that holds a single value has the leaves of that value. -/
theorem Holds.leaves_eq {counters : Counters} {name : String} {node : Node} {b : Branch}
    (h : Holds counters [(name, node)] b) : Node.leavesBranch b = node.leaves := by
  obtain ⟨fields⟩ := b
  have here := h.field name
  rw [Entries.values_cons_self, Entries.values_nil] at here
  rw [Node.leavesBranch, @leavesFields_eq name _ h.ordered]
  · show ((Table.get? ⟨fields⟩ name).map Node.leavesField).getD [] = _
    generalize Table.get? ⟨fields⟩ name = present at here
    generalize counters.isSingle name = single at here
    cases here with
    | one => rfl
    | many => exact List.append_nil _
  · rintro ⟨other, field⟩ member ne
    have there := h.field other
    rw [Entries.values_cons_of_ne ne, Entries.values_nil, h.ordered.get?_of_mem member] at there
    generalize counters.isSingle other = single at there
    cases there
    rfl

/-- A branch that holds nothing but a leaf shows the text of the leaf. -/
theorem Holds.chars_eq {counters : Counters} {name : String} {s : Slice} {b : Branch}
    (h : Holds counters [(name, .leaf s)] b) (genuine : s.Genuine) : (Node.branch b).chars = s.chars := by
  have leaves : (Node.branch b).leaves = [s] := h.leaves_eq
  rw [Node.chars, Node.slice?, leaves]
  exact congrArg Slice.chars genuine.span

/-! ### Additions -/

/-- A way from one branch to another that adds some entries behind those that are there. -/
def Adds (counters : Counters) (entries : Entries) (b b' : Branch) : Prop :=
  ∀ ⦃before⦄, Holds counters before b → Holds counters (before ++ entries) b'

namespace Adds

variable {counters : Counters} {entries entries' : Entries} {b b' b'' : Branch} {name : String} {node : Node}

theorem refl (counters : Counters) (b : Branch) : Adds counters [] b b := by
  intro before holds
  rwa [List.append_nil]

theorem trans (h : Adds counters entries b b') (h' : Adds counters entries' b' b'') :
    Adds counters (entries ++ entries') b b'' := by
  intro before holds
  rw [← List.append_assoc]
  exact h' (h holds)

theorem add (added : lift (b.add name node (counters.isSingle name)) = .ok b') :
    Adds counters [(name, node)] b b' :=
  fun _ holds => holds.of_add (Except.mapError_eq_ok added)

theorem mark {m : Mark} (several : counters.isSingle name = false) (added : addMark name m b = .ok b') :
    Adds counters [(name, .mark m)] b b' := by
  rw [addMark, ← several] at added
  exact add added

end Adds

end Generic

/-! ### What a term adds -/

/-- The padding in force in a scope. -/
def Scope.padding : Scope → Except Error (Option Padding)
  | [] => .ok none
  | g :: outer => padding outer >>= Padding.ofGrammar g

/-- A slice that a terminal of a scope shows: what its pattern matches somewhere in a source. -/
def Scope.Shows (scope : Scope) (t : Term) (s : Slice) : Prop :=
  ∃ padding made input m, scope.padding = .ok padding ∧ terminal t padding = .ok made ∧ input.Genuine ∧
    made.regex.match? input = some m ∧ s = m.output

namespace Generic

open Counters

section Enters

variable (records : Scope → Term → Branch → Prop)

mutual
/-- A walk by a term adds some entries to the branch that is open; `records` says which branches a rule can
give, by its body and the scope of that. -/
def Enters (scope : Scope) : Term → Entries → Prop
  | .literal text, entries => ∃ s, scope.Shows (.literal text) s ∧ entries = [("", .leaf s)]
  | .regex pattern, entries => ∃ s, scope.Shows (.regex pattern) s ∧ entries = [("", .leaf s)]
  | .backref name _, entries => ∃ s, entries = [(name, .leaf s)]
  | .rule name, entries =>
      ∃ body inner child, scope.find? name = some (body, inner) ∧ records inner body child ∧
        entries = [(baseName name, .branch child)]
  | .capture name t, entries =>
      ∃ inside child, Enters scope t inside ∧ Holds (ofTerm t) inside child ∧ entries = [(name, .branch child)]
  | .cut t, entries => Enters scope t entries
  | .withRules t rules, entries => Enters (rules :: scope) t entries
  | .seq ts, entries => EntersAll scope ts entries
  | .choice ts, entries =>
      ∃ index rest, EntersChosen scope ts index rest ∧
        entries = (choiceField, .mark (.choice index)) :: rest
  | .quant t min _, entries =>
      ∃ parts : List Entries, min ≤ parts.length ∧ (∀ part ∈ parts, Enters scope t part) ∧
        entries = (countField, .mark (.count parts.length)) :: parts.flatten
  | .list element separator _, entries =>
      ∃ (m : Mark) (parts : List Entries),
        (∀ part ∈ parts, Enters scope element part ∨ Enters scope separator part) ∧
        entries = (listField, .mark m) :: parts.flatten
  | .stack _, _ => False

/-- The items of a sequence add their entries one after the other. -/
def EntersAll (scope : Scope) : List Term → Entries → Prop
  | [], entries => entries = []
  | t :: ts, entries =>
      ∃ first others, Enters scope t first ∧ EntersAll scope ts others ∧ entries = first ++ others

/-- The alternative with a given index adds some entries. -/
def EntersChosen (scope : Scope) : List Term → Nat → Entries → Prop
  | [], _, _ => False
  | t :: _, 0, entries => Enters scope t entries
  | _ :: ts, index + 1, entries => EntersChosen scope ts index entries
end

end Enters

/-- A branch that a rule can give, through at most the given number of rules inside each other: it holds what
the body of the rule adds. -/
def Recorded : Nat → Scope → Term → Branch → Prop
  | 0, _, _, _ => False
  | n + 1, scope, body, child => ∃ entries, Enters (Recorded n) scope body entries ∧ Holds (ofTerm body) entries child

end Generic

/-! ### Scopes of a program -/

namespace Program

/-- Surroundings that the tables of a scope open one inside the other, with the bodies of their rules in
place. -/
inductive Opened (d : Draft) : Surroundings → Scope → Prop
  | outside (backrefs : List String) : Opened d ⟨backrefs, [], none⟩ []
  | inside {s outer scope rules} : Opened d outer scope → Opens d outer rules s → BuiltTable d s rules →
      Opened d s (rules :: scope)

namespace Opened

variable {d : Draft} {s : Surroundings} {scope : Scope} {name : String} {slot : ParserId}

theorem padding (opened : Opened d s scope) : scope.padding = .ok s.padding := by
  induction opened with
  | outside => rfl
  | inside _ opens _ ih =>
    rw [Scope.padding, ih]
    exact opens.padding

theorem sees (opened : Opened d s scope) : ∃ frames, innermost frames = s.names ∧ Sees d frames scope := by
  induction opened with
  | outside => exact ⟨[], rfl, .outside⟩
  | @inside s _ _ _ _ opens built ih =>
    obtain ⟨frames, names, sees⟩ := ih
    exact ⟨s :: frames, rfl, .inside sees names.symm opens built⟩

theorem ne_paddingRule (opened : Opened d s scope) (found : Table.lookup name s.names = some slot) :
    name ≠ paddingRule := by
  obtain ⟨frames, names, sees⟩ := opened.sees
  rw [← names] at found
  exact sees.ne_paddingRule found

/-- A name leads to the body of the rule that it means, in the surroundings of the scope of the rule. -/
theorem find? (opened : Opened d s scope) (found : Table.lookup name s.names = some slot) :
    ∃ t inner s' body, scope.find? name = some (t, inner) ∧ d.parsers[slot]? = some ⟨none, .call body⟩ ∧
      BuiltAt d s' (some name) t body ∧ Opened d s' inner := by
  have rule := opened.ne_paddingRule found
  induction opened with
  | outside => cases found
  | @inside s outer scope rules further opens built ih =>
    obtain ⟨locals, same, order, -⟩ := opens.names
    have inLocals : name ∈ locals.map (·.1) ↔ name ∈ rules.names := by
      rw [order, List.mem_reverse, List.mem_filter]
      simp [rule]
    by_cases member : name ∈ rules.names
    · obtain ⟨entries⟩ := rules
      obtain ⟨t, slot', body, value, found', set, made⟩ := mem_of_builtEntries built member rule
      obtain rfl := Option.some.inj (found.symm.trans found')
      have value : Table.get? ⟨entries⟩ name = some t := value
      refine ⟨t, ⟨entries⟩ :: scope, s, body, ?_, set, made, .inside further opens built⟩
      rw [Scope.find?, value]
    · have value : rules.get? name = none := by
        rwa [← Option.not_isSome_iff_eq_none, Table.get?, Table.lookup_isSome]
      have absent : Table.lookup name locals = none := by
        rwa [← Option.not_isSome_iff_eq_none, Table.lookup_isSome, inLocals]
      rw [same, Table.lookup_append, absent, Option.none_or] at found
      obtain ⟨t, inner, s', body, means, rest⟩ := ih found
      refine ⟨t, inner, s', body, ?_, rest⟩
      rw [Scope.find?, value, means]

end Opened

/-! ### Parses are recorded -/

open Generic Generic.Counters

/-- What is to be shown of a term: a walk over any tree that its parser derives adds what the term says. -/
def TermRecorded (p : Program) (n : Nat) (t : Term) : Prop :=
  ∀ ⦃s scope label id input tree rest counters b b'⦄, BuiltAt p.draft s label t id → Opened p.draft s scope →
    counters.Covers t → input.Genuine → Derives p id input tree rest →
    collect (ofRule n) scope counters t tree b = .ok b' →
    ∃ entries, Enters (Recorded n) scope t entries ∧ Adds counters entries b b'

/-- The same of the bodies of rules. -/
def RulesRecorded (p : Program) (n : Nat) : Prop :=
  ∀ ⦃name t s scope body input tree rest child⦄, BuiltAt p.draft s (some name) t body → Opened p.draft s scope →
    input.Genuine → Derives p body input tree rest → ofRule n scope t tree = .ok child →
    Recorded n scope t child

section Recorded

variable {p : Program} {n : Nat} {t : Term} {s : Surroundings} {scope : Scope} {id : ParserId}
  {input rest : Slice} {counters : Counters} {b b' : Branch}

/-- Repetitions add their entries one after the other. -/
theorem recorded_times (inner : TermRecorded p n t) {label : Option String} (built : BuiltAt p.draft s label t id)
    (opened : Opened p.draft s scope) (covers : counters.Covers t) {children : List Tree}
    (ds : DerivesEach p (List.replicate children.length (some id)) input children rest) (genuine : input.Genuine)
    (walked : children.foldlM (fun b child => collect (ofRule n) scope counters t child b) b = .ok b') :
    ∃ parts : List Entries, parts.length = children.length ∧ (∀ part ∈ parts, Enters (Recorded n) scope t part) ∧
      Adds counters parts.flatten b b' := by
  induction children generalizing input b with
  | nil =>
    obtain rfl := Except.ok.inj walked
    exact ⟨[], rfl, List.forall_mem_nil _, .refl _ _⟩
  | cons child children ih =>
    obtain ⟨next, here, walked⟩ := Except.bind_eq_ok walked
    obtain _ | ⟨d, ds⟩ | _ := ds
    obtain ⟨part, entered, adds⟩ := inner built opened covers genuine d here
    obtain ⟨parts, length, each, others⟩ := ih ds (genuine.follows d.follows) walked
    exact ⟨part :: parts, congrArg (· + 1) length, List.forall_mem_cons.mpr ⟨entered, each⟩, adds.trans others⟩

/-- What the walk over a slot of a list adds, which is nothing if the slot was left out. -/
theorem recorded_slot {P : Entries → Prop} {walk other : Tree → Branch → Except Error Branch} {slot : Tree}
    {slots : List Tree} {expected : Option ParserId} {ids : List (Option ParserId)}
    (expects : expected = none ∨ expected = some id)
    (each : ∀ ⦃input next b b'⦄, input.Genuine → Derives p id input slot next → walk slot b = .ok b' →
      ∃ part, P part ∧ Adds counters part b b')
    (ds : DerivesEach p (expected :: ids) input (slot :: slots) rest) (genuine : input.Genuine)
    (walked : Term.walkSlots walk other [slot] b = .ok b') :
    ∃ next, next.Genuine ∧ DerivesEach p ids next slots rest ∧
      ∃ parts : List Entries, (∀ part ∈ parts, P part) ∧ Adds counters parts.flatten b b' := by
  by_cases present : slot = .elided
  · subst present
    obtain rfl := Except.ok.inj walked
    have nothing : ∃ parts : List Entries, (∀ part ∈ parts, P part) ∧ Adds counters parts.flatten b b :=
      ⟨[], List.forall_mem_nil _, .refl _ _⟩
    cases ds with
    | cons d ds => exact ⟨_, genuine.follows d.follows, ds, nothing⟩
    | elided ds => exact ⟨_, genuine, ds, nothing⟩
  · rw [Tree.walkSlots_present _ _ _ _ present] at walked
    obtain ⟨b₁, taken, ended⟩ := Except.bind_eq_ok walked
    obtain rfl := Except.ok.inj ended
    cases ds with
    | elided => exact absurd rfl present
    | cons d ds =>
      obtain rfl := Option.some.inj (expects.resolve_left nofun)
      obtain ⟨part, here, adds⟩ := each genuine d taken
      refine ⟨_, genuine.follows d.follows, ds, [part], List.forall_mem_singleton.mpr here, ?_⟩
      rwa [List.flatten_singleton]

/-- The walk over the slots of a list adds what their elements and separators add, in turn. -/
theorem recorded_slots {E S : Entries → Prop} {elementWalk separatorWalk : Tree → Branch → Except Error Branch}
    {element separator : ParserId} {leading trailing : Bool} {left : Nat} {first : Bool} {slots : List Tree}
    (elements : ∀ ⦃slot input next b b'⦄, input.Genuine → Derives p element input slot next →
      elementWalk slot b = .ok b' → ∃ part, E part ∧ Adds counters part b b')
    (separators : ∀ ⦃slot input next b b'⦄, input.Genuine → Derives p separator input slot next →
      separatorWalk slot b = .ok b' → ∃ part, S part ∧ Adds counters part b b')
    (ds : DerivesEach p (slotPattern (some element) (some separator) none leading trailing left first) input
      slots rest) (genuine : input.Genuine) (walked : Term.walkSlots elementWalk separatorWalk slots b = .ok b') :
    ∃ parts : List Entries, (∀ part ∈ parts, E part ∨ S part) ∧ Adds counters parts.flatten b b' := by
  have elided : ∀ leaves : Bool, (if leaves then none else some element) = none ∨
      (if leaves then none else some element) = some element := by
    rintro ⟨⟩
    · exact .inr rfl
    · exact .inl rfl
  induction left generalizing first input slots b with
  | zero =>
    obtain ⟨slot, rfl⟩ := List.length_eq_one_iff.mp ds.length_slots
    obtain ⟨-, -, -, parts, each, adds⟩ := recorded_slot (elided _) (@elements slot) ds genuine walked
    exact ⟨parts, fun part member => .inl (each part member), adds⟩
  | succ left ih =>
    match slots, ds.length_slots with
    | slot :: between :: slots, _ =>
      rw [Tree.walkSlots_cons] at walked
      obtain ⟨b₁, here, walked⟩ := Except.bind_eq_ok walked
      rw [Tree.walkSlots_cons] at walked
      obtain ⟨b₂, there, walked⟩ := Except.bind_eq_ok walked
      obtain ⟨next, genuine, ds, parts, each, adds⟩ := recorded_slot (elided _) (@elements slot) ds genuine here
      obtain ⟨next, genuine, ds, parts', each', adds'⟩ := recorded_slot (.inr rfl) (@separators between) ds genuine there
      obtain ⟨others, each'', adds''⟩ := ih ds genuine walked
      refine ⟨parts ++ (parts' ++ others), fun part member => ?_, ?_⟩
      · rcases List.mem_append.mp member with member | member
        · exact .inl (each part member)
        · rcases List.mem_append.mp member with member | member
          · exact .inr (each' part member)
          · exact each'' part member
      · rw [List.flatten_append, List.flatten_append]
        exact adds.trans (adds'.trans adds'')

/-- A terminal shows what it matched. -/
theorem recorded_terminal {made : Terminal} {label : Option String} {tree : Tree}
    (built : terminal t s.padding = .ok made) (here : p.draft.parsers[id]? = some ⟨label, .terminal made⟩) (opened : Opened p.draft s scope)
    (genuine : input.Genuine) (d : Derives p id input tree rest) (walked : addLeaf counters "" t b tree = .ok b') :
    ∃ s, scope.Shows t s ∧ Adds counters [("", .leaf s)] b b' := by
  obtain ⟨m, matched, rfl, -⟩ := d.inv here
  exact ⟨m.output, ⟨s.padding, made, input, m, opened.padding, built, genuine, matched, rfl⟩, .add walked⟩

/-- A reference adds the branch of the rule that it means. -/
theorem recorded_reference (rules : RulesRecorded p n) (name : String) : TermRecorded p n (.rule name) := by
  intro s scope label id input tree rest counters b b' built opened _ genuine d walked
  obtain ⟨slot, found, here⟩ := built
  obtain ⟨body, inner, s', made, means, set, built, opened⟩ := opened.find? found
  have d : Derives p slot input tree rest := d.inv here
  have d : Derives p made input tree rest := d.inv set
  rw [collect, means] at walked
  obtain ⟨child, entered, added⟩ := Except.bind_eq_ok walked
  exact ⟨_, ⟨body, inner, child, means, rules built opened genuine d entered, rfl⟩, .add added⟩

mutual
/-- A walk over a tree that was derived by the parser of a term adds what the term says. -/
theorem recorded_of_built (rules : RulesRecorded p n) : ∀ t : Term, TermRecorded p n t
  | .literal text => by
    intro _ _ _ _ _ _ _ _ _ _ ⟨made, terminal, here⟩ opened _ genuine d walked
    rw [collect] at walked
    obtain ⟨shown, shows, adds⟩ := recorded_terminal terminal here opened genuine d walked
    exact ⟨_, ⟨shown, shows, rfl⟩, adds⟩
  | .regex pattern => by
    intro _ _ _ _ _ _ _ _ _ _ ⟨made, terminal, here⟩ opened _ genuine d walked
    rw [collect] at walked
    obtain ⟨shown, shows, adds⟩ := recorded_terminal terminal here opened genuine d walked
    exact ⟨_, ⟨shown, shows, rfl⟩, adds⟩
  | .backref name default => by
    intro _ _ _ _ _ _ _ _ _ _ ⟨_, here, _⟩ _ _ _ d walked
    obtain ⟨-, rfl⟩ := d.inv here
    rw [collect] at walked
    exact ⟨_, ⟨_, rfl⟩, .add walked⟩
  | .rule name => recorded_reference rules name
  | .capture name t => by
    intro _ _ _ _ _ _ _ _ _ _ built opened _ genuine d walked
    rw [collect] at walked
    obtain ⟨child, inside, added⟩ := Except.bind_eq_ok walked
    obtain ⟨entries, entered, adds⟩ := recorded_of_built rules t built opened (covers_ofTerm t) genuine d inside
    have holds := adds (Holds.empty (ofTerm_spec t).1)
    exact ⟨_, ⟨entries, child, entered, holds, rfl⟩, .add added⟩
  | .cut t => by
    intro _ _ _ _ _ _ _ _ _ _ ⟨_, _, here, built⟩ opened covers genuine d walked
    rw [collect] at walked
    exact recorded_of_built rules t built opened covers genuine (d.inv here) walked
  | .withRules t g => by
    intro _ _ _ _ _ _ _ _ _ _ ⟨_, opens, table, built⟩ opened covers genuine d walked
    rw [collect] at walked
    exact recorded_of_built rules t built (.inside opened opens table) covers genuine d walked
  | .seq ts => by
    intro _ _ _ _ _ _ _ _ _ _ ⟨items, here, built⟩ opened covers genuine d walked
    obtain ⟨trees, rfl, ds⟩ := d.inv here
    rw [collect] at walked
    obtain ⟨children, children_eq, walked⟩ := Except.bind_eq_ok walked
    obtain rfl := Except.ok.inj children_eq
    split at walked
    · exact recordedAll_of_built rules ts built opened
        (fun t member => covers.mono fun _ => occurrences_le_all member) genuine ds walked
    · cases walked
  | .choice ts => by
    intro _ scope _ _ _ _ _ counters b _ ⟨alternatives, here, built⟩ opened covers genuine d walked
    obtain ⟨index, chosen, child, found, rfl, inner⟩ := d.inv here
    have several : counters.isSingle choiceField = false := covers choiceField (by simp [occurrences])
    have below : ∀ t ∈ ts, counters.Covers t := fun t member =>
      covers.mono fun field => Nat.le_trans (occurrences_le_most member) (Nat.le_add_left _ _)
    rw [collect] at walked
    have walked : collectChosen (ofRule n) scope counters _ _ index ts index child b = _ := walked
    obtain ⟨rest, entered, adds⟩ := recordedChosen_of_built rules ts built opened several below genuine found inner walked
    exact ⟨_, ⟨index, rest, entered, rfl⟩, adds⟩
  | .quant t min max => by
    intro _ _ _ _ _ _ _ counters _ _ ⟨inner, _, here, built⟩ opened covers genuine d walked
    obtain ⟨trees, rfl, least, -, ds⟩ := d.inv here
    have several : counters.isSingle countField = false := covers countField (by simp [occurrences])
    have below : counters.Covers t := covers.mono fun field => by
      rw [occurrences]
      refine Nat.le_trans (Nat.le_mul_of_pos_left _ ?_) (Nat.le_add_left _ _)
      split <;> omega
    rw [collect] at walked
    obtain ⟨children, children_eq, walked⟩ := Except.bind_eq_ok walked
    obtain rfl := Except.ok.inj children_eq
    obtain ⟨b₁, marked, walked⟩ := Except.bind_eq_ok walked
    obtain ⟨parts, length, each, adds⟩ :=
      recorded_times (recorded_of_built rules t) built opened below ds genuine walked
    rw [← length] at least marked
    exact ⟨_, ⟨parts, least, each, rfl⟩, (Adds.mark several marked).trans adds⟩
  | .list element separator style => by
    intro _ _ label _ _ _ _ counters _ _ ⟨_, _, _, _, here, first, second⟩ opened covers genuine d walked
    obtain ⟨leading, trailing, left, slots, rfl, -, -, -, ds⟩ := d.inv here
    have several : counters.isSingle listField = false := by
      apply covers listField
      rw [occurrences, if_pos rfl]
      omega
    have elements : counters.Covers element := covers.mono fun field => by rw [occurrences]; omega
    have separators : counters.Covers separator := covers.mono fun field => by rw [occurrences]; omega
    rw [collect, Tree.listSlots_ofSlots _ _ _ ds.length_slots] at walked
    obtain ⟨slots', slots_eq, walked⟩ := Except.bind_eq_ok walked
    obtain rfl := Except.ok.inj slots_eq
    obtain ⟨b₁, marked, walked⟩ := Except.bind_eq_ok walked
    obtain ⟨parts, each, adds⟩ := recorded_slots
      (fun _ _ _ _ _ genuine d walked => recorded_of_built rules element first opened elements genuine d walked)
      (fun _ _ _ _ _ genuine d walked => recorded_of_built rules separator second opened separators genuine d walked)
      ds genuine walked
    exact ⟨_, ⟨_, parts, each, rfl⟩, (Adds.mark several marked).trans adds⟩
  | .stack _ => by
    intro _ _ _ _ _ _ _ _ _ _ built _ _ _ _ _
    exact built.elim

theorem recordedAll_of_built (rules : RulesRecorded p n) : ∀ (ts : List Term)
    {s scope whole items input trees rest counters b b'}, BuiltItems p.draft s whole ts items →
    Opened p.draft s scope → (∀ t ∈ ts, Covers counters t) → input.Genuine →
    DerivesEach p (items.map fun item => some item.parser) input trees rest →
    collectItems (ofRule n) scope counters ts trees b = .ok b' →
    ∃ entries, EntersAll (Recorded n) scope ts entries ∧ Adds counters entries b b'
  | [], _, _, _, _, _, trees, _, _, _, _, _, _, _, _, _, walked => by
    rw [collectItems] at walked
    · obtain rfl := Except.ok.inj walked
      exact ⟨[], rfl, .refl _ _⟩
    · exact nofun
  | t :: ts, _, _, _, item :: items, _, _, _, _, _, _, ⟨_, _, _, here, others⟩, opened, covers, genuine, ds, walked => by
    obtain _ | ⟨d, ds⟩ | _ := ds
    rw [collectItems] at walked
    obtain ⟨b₁, first, walked⟩ := Except.bind_eq_ok walked
    obtain ⟨entries, entered, adds⟩ :=
      recorded_of_built rules t here opened (covers t List.mem_cons_self) genuine d first
    obtain ⟨entries', entered', adds'⟩ := recordedAll_of_built rules ts others opened
      (fun t member => covers t (List.mem_cons_of_mem _ member)) (genuine.follows d.follows) ds walked
    exact ⟨_, ⟨entries, entries', entered, entered', rfl⟩, adds.trans adds'⟩

theorem recordedChosen_of_built (rules : RulesRecorded p n) : ∀ (ts : List Term)
    {s scope whole ids index chosen input child rest counters whole' node taken b b'}, BuiltAll p.draft s whole ts ids →
    Opened p.draft s scope → Counters.isSingle counters choiceField = false → (∀ t ∈ ts, Covers counters t) →
    input.Genuine → ids[index]? = some chosen → Derives p chosen input child rest →
    collectChosen (ofRule n) scope counters whole' node taken ts index child b = .ok b' →
    ∃ entries, EntersChosen (Recorded n) scope ts index entries ∧
      Adds counters ((choiceField, .mark (.choice taken)) :: entries) b b'
  | [], _, _, _, [], _, _, _, _, _, _, _, _, _, _, _, _, _, _, _, _, found, _, _ => by cases found
  | t :: ts, _, _, _, id :: ids, 0, _, _, _, _, _, _, _, _, _, _, ⟨_, here, _⟩, opened, several, covers, genuine, found,
      d, walked => by
    obtain rfl := Option.some.inj found
    rw [collectChosen] at walked
    obtain ⟨b₁, marked, walked⟩ := Except.bind_eq_ok walked
    obtain ⟨entries, entered, adds⟩ :=
      recorded_of_built rules t here opened (covers t List.mem_cons_self) genuine d walked
    exact ⟨entries, entered, (Adds.mark several marked).trans adds⟩
  | t :: ts, _, _, _, id :: ids, index + 1, _, _, _, _, _, _, _, _, _, _, ⟨_, _, others⟩, opened, several, covers, genuine,
      found, d, walked => by
    rw [collectChosen] at walked
    exact recordedChosen_of_built rules ts others opened several
      (fun t member => covers t (List.mem_cons_of_mem _ member)) genuine found d walked
end

/-- The branch that a derived tree becomes is a record of the body of its rule. -/
theorem recordedRule_of_built (p : Program) (n : Nat) : RulesRecorded p n := by
  induction n with
  | zero =>
    intro _ _ _ _ _ _ _ _ _ _ _ _ _ entered
    cases entered
  | succ n ih =>
    intro _ t _ _ _ _ _ _ _ built opened genuine d entered
    rw [ofRule] at entered
    obtain ⟨entries, enters, adds⟩ := recorded_of_built ih t built opened (covers_ofTerm t) genuine d entered
    exact ⟨entries, enters, adds (Holds.empty (ofTerm_spec t).1)⟩

end Recorded

end Program

namespace Parsers

variable {g : Grammar} {options : CompileOptions} {p : Parsers}

open Generic Generic.Counters

/-- A derivation by the slot of a rule is one by the body of the rule, in the scope of the whole grammar. -/
theorem opened_of_rule (compiled : g.compile options = .ok p) {rule : String} {slot : ParserId}
    (found : p.program.rules.get? rule = some slot) :
    ∃ t s body, p.flat.get? rule = some t ∧ p.program.parsers[slot]? = some ⟨none, .call body⟩ ∧
      Program.BuiltAt p.program.draft s (some rule) t body ∧ Program.Opened p.program.draft s [p.flat] := by
  obtain ⟨-, -, -, built, -⟩ := Grammar.compile_ok compiled
  obtain ⟨s, opens, table, -, starts⟩ := Program.opens_ofGrammar built (distinctNames compiled)
  have opened := Program.Opened.inside (.outside _) opens table
  obtain ⟨t, inner, s', body, means, set, made, within⟩ := opened.find? ((starts rule).symm.trans found)
  rw [Scope.find?] at means
  split at means
  · next value =>
    obtain ⟨rfl, rfl⟩ := Prod.mk.inj (Option.some.inj means)
    exact ⟨_, s', body, value, set, made, within⟩
  · cases means

/-- **Generic trees hold what the terms of their rules say.**  The tree of a parse becomes a branch that is a
record of the body of its rule, with the name of the rule beside it if the body leaves the field of that
free. -/
theorem recorded_of_parsePartial (compiled : g.compile options = .ok p) (validated : options.validate = true)
    {rule : String} {input rest : Slice} {tree : Tree} (genuine : input.Genuine)
    (parsed : p.parsePartial rule input = .ok (tree, rest)) :
    ∃ body root, p.flat.get? rule = some body ∧ Recorded (p.flat.walkFuel tree) [p.flat] body root ∧
      (occurrences ruleField body = 0 →
        p.toGeneric rule tree = .ok (root.insert ruleField (.one (.mark (.rule rule))))) := by
  obtain ⟨noPadding, body, value, shaped⟩ := shaped_of_parsePartial compiled validated parsed
  obtain ⟨-, root, made, absent, -⟩ := bridgedRule_of_shaped _ shaped
  refine ⟨body, root, value, ?_, fun free => ?_⟩
  · obtain ⟨slot, found, d⟩ := derives_of_parsePartial parsed
    obtain ⟨body', s, id, value', set, built, opened⟩ := opened_of_rule compiled found
    obtain rfl := Option.some.inj (value.symm.trans value')
    have d : Derives p.program id input tree rest := d.inv set
    exact Program.recordedRule_of_built p.program _ built opened genuine d made
  · rw [toGeneric, Grammar.flatToGeneric, if_neg noPadding, value]
    show (ofRule (p.flat.walkFuel tree) [p.flat] body tree >>= _) = _
    rw [made]
    show lift (root.add ruleField (.mark (.rule rule)) true) = _
    rw [Branch.add, absent ruleField free]
    rfl

end Parsers

/-! ### What records hold -/

namespace Generic

open Counters

/-- The field that a part of a term adds its value to. -/
def fieldOf : Term → String
  | .rule name => baseName name
  | .capture name _ => name
  | .backref name _ => name
  | .withRules t _ => fieldOf t
  | _ => ""

mutual
/-- The parts of a term that add values to fields other than those for bookkeeping. -/
def contributors : Term → List Term
  | .literal text => [.literal text]
  | .regex pattern => [.regex pattern]
  | .backref name default => [.backref name default]
  | .rule name => [.rule name]
  | .capture name t => [.capture name t]
  | .cut t => contributors t
  | .withRules t rules => (contributors t).map (.withRules · rules)
  | .seq ts => contributorsAll ts
  | .choice ts => contributorsAll ts
  | .quant t _ _ => contributors t
  | .list element separator _ => contributors element ++ contributors separator
  | .stack ts => contributorsAll ts

/-- The parts of several terms that add values. -/
def contributorsAll : List Term → List Term
  | [] => []
  | t :: ts => contributors t ++ contributorsAll ts
end

section Enters

variable {records : Scope → Term → Branch → Prop}

/-- A value that a term adds: one for bookkeeping, or the only one that one of its parts adds. -/
def Comes (records : Scope → Term → Branch → Prop) (scope : Scope) (parts : List Term) (field : String) (node : Node) :
    Prop :=
  (∃ m, node = .mark m ∧ field ∈ [choiceField, countField, listField]) ∨
    ∃ part ∈ parts, field = fieldOf part ∧ Enters records scope part [(field, node)]

theorem Comes.mono {scope : Scope} {parts parts' : List Term} {field : String} {node : Node}
    (h : Comes records scope parts field node) (subset : parts ⊆ parts') : Comes records scope parts' field node :=
  h.imp_right fun ⟨part, member, rest⟩ => ⟨part, subset member, rest⟩

mutual
/-- Every value comes from a part of the term. -/
theorem Enters.mem_parts : ∀ (t : Term) {scope : Scope} {entries : Entries}, Enters records scope t entries →
    ∀ field node, (field, node) ∈ entries → Comes records scope (contributors t) field node
  | .literal text, _, _, entered, field, node, member => by
    obtain ⟨s, -, rfl⟩ := id entered
    obtain ⟨rfl, rfl⟩ := Prod.mk.inj (List.mem_singleton.mp member)
    exact .inr ⟨_, List.mem_cons_self, rfl, entered⟩
  | .regex pattern, _, _, entered, field, node, member => by
    obtain ⟨s, -, rfl⟩ := id entered
    obtain ⟨rfl, rfl⟩ := Prod.mk.inj (List.mem_singleton.mp member)
    exact .inr ⟨_, List.mem_cons_self, rfl, entered⟩
  | .backref name default, _, _, entered, field, node, member => by
    obtain ⟨s, rfl⟩ := id entered
    obtain ⟨rfl, rfl⟩ := Prod.mk.inj (List.mem_singleton.mp member)
    exact .inr ⟨_, List.mem_cons_self, rfl, entered⟩
  | .rule name, _, _, entered, field, node, member => by
    obtain ⟨_, _, _, _, _, rfl⟩ := id entered
    obtain ⟨rfl, rfl⟩ := Prod.mk.inj (List.mem_singleton.mp member)
    exact .inr ⟨_, List.mem_cons_self, rfl, entered⟩
  | .capture name t, _, _, entered, field, node, member => by
    obtain ⟨_, _, _, _, rfl⟩ := id entered
    obtain ⟨rfl, rfl⟩ := Prod.mk.inj (List.mem_singleton.mp member)
    exact .inr ⟨_, List.mem_cons_self, rfl, entered⟩
  | .cut t, _, _, entered, field, node, member => by
    rw [Enters] at entered
    exact Enters.mem_parts t entered field node member
  | .withRules t rules, _, _, entered, field, node, member => by
    rw [Enters] at entered
    rcases Enters.mem_parts t entered field node member with mark | ⟨part, inside, same, here⟩
    · exact .inl mark
    · refine .inr ⟨.withRules part rules, ?_, same, ?_⟩
      · rw [contributors]
        exact List.mem_map_of_mem inside
      · rwa [Enters]
  | .seq ts, _, _, entered, field, node, member => by
    rw [Enters] at entered
    exact EntersAll.mem_parts ts entered field node member
  | .choice ts, _, _, entered, field, node, member => by
    obtain ⟨index, rest, chosen, rfl⟩ := entered
    rcases List.mem_cons.mp member with same | later
    · obtain ⟨rfl, rfl⟩ := Prod.mk.inj same
      exact .inl ⟨_, rfl, List.mem_cons_self⟩
    · exact EntersChosen.mem_parts ts chosen field node later
  | .quant t _ _, _, _, entered, field, node, member => by
    obtain ⟨parts, -, each, rfl⟩ := entered
    rcases List.mem_cons.mp member with same | later
    · obtain ⟨rfl, rfl⟩ := Prod.mk.inj same
      exact .inl ⟨_, rfl, .tail _ List.mem_cons_self⟩
    · obtain ⟨part, inside, member⟩ := List.mem_flatten.mp later
      exact Enters.mem_parts t (each part inside) field node member
  | .list element separator _, _, _, entered, field, node, member => by
    obtain ⟨m, parts, each, rfl⟩ := entered
    rcases List.mem_cons.mp member with same | later
    · obtain ⟨rfl, rfl⟩ := Prod.mk.inj same
      exact .inl ⟨_, rfl, .tail _ (.tail _ List.mem_cons_self)⟩
    · obtain ⟨part, inside, member⟩ := List.mem_flatten.mp later
      rcases each part inside with here | here
      · exact (Enters.mem_parts element here field node member).mono (List.subset_append_left _ _)
      · exact (Enters.mem_parts separator here field node member).mono (List.subset_append_right _ _)
  | .stack _, _, _, entered, _, _, _ => entered.elim

theorem EntersAll.mem_parts : ∀ (ts : List Term) {scope : Scope} {entries : Entries},
    EntersAll records scope ts entries → ∀ field node, (field, node) ∈ entries →
      Comes records scope (contributorsAll ts) field node
  | [], _, _, entered, _, _, member => by
    obtain rfl := entered
    cases member
  | t :: ts, _, _, entered, field, node, member => by
    obtain ⟨first, others, here, there, rfl⟩ := entered
    rcases List.mem_append.mp member with member | member
    · exact (Enters.mem_parts t here field node member).mono (List.subset_append_left _ _)
    · exact (EntersAll.mem_parts ts there field node member).mono (List.subset_append_right _ _)

theorem EntersChosen.mem_parts : ∀ (ts : List Term) {scope : Scope} {index : Nat} {entries : Entries},
    EntersChosen records scope ts index entries → ∀ field node, (field, node) ∈ entries →
      Comes records scope (contributorsAll ts) field node
  | t :: _, _, 0, _, entered, field, node, member =>
    (Enters.mem_parts t entered field node member).mono (List.subset_append_left _ _)
  | _ :: ts, _, _ + 1, _, entered, field, node, member =>
    (EntersChosen.mem_parts ts entered field node member).mono (List.subset_append_right _ _)
end

/-- A field to which only references to one rule add values holds branches of that rule. -/
theorem Enters.branch_of_rule {t : Term} {scope : Scope} {entries : Entries} {field rule : String} {node : Node}
    (entered : Enters records scope t entries) (member : (field, node) ∈ entries)
    (noMark : field ∉ [choiceField, countField, listField])
    (only : ∀ part ∈ contributors t, field = fieldOf part → part = .rule rule) :
    ∃ body inner child, scope.find? rule = some (body, inner) ∧ records inner body child ∧ node = .branch child := by
  rcases Enters.mem_parts t entered field node member with ⟨-, -, mark⟩ | ⟨part, inside, same, here⟩
  · exact absurd mark noMark
  · obtain rfl := only part inside same
    obtain ⟨body, inner, child, means, record, alone⟩ := here
    obtain ⟨-, rfl⟩ := Prod.mk.inj (List.singleton_inj.mp alone)
    exact ⟨body, inner, child, means, record, rfl⟩

/-- All that an item of a sequence adds is added by the sequence. -/
theorem EntersAll.mem : ∀ {ts : List Term} {scope : Scope} {entries : Entries} {t : Term},
    EntersAll records scope ts entries → t ∈ ts → ∃ part, Enters records scope t part ∧ part ⊆ entries
  | _ :: ts, _, _, _, ⟨first, others, here, there, same⟩, member => by
    subst same
    rcases List.mem_cons.mp member with rfl | later
    · exact ⟨first, here, List.subset_append_left _ _⟩
    · obtain ⟨part, entered, subset⟩ := EntersAll.mem there later
      exact ⟨part, entered, List.subset_append_of_subset_right _ subset⟩

theorem EntersChosen.getElem? : ∀ (ts : List Term) {scope : Scope} {index : Nat} {entries : Entries},
    EntersChosen records scope ts index entries → ∃ t, ts[index]? = some t ∧ Enters records scope t entries
  | t :: _, _, 0, _, entered => ⟨t, rfl, entered⟩
  | _ :: ts, _, _ + 1, _, entered => EntersChosen.getElem? ts entered

end Enters

/-- The branch of a choice knows the alternative that was taken. -/
theorem Holds.choice?_eq {ts : List Term} {index : Nat} {rest : Entries} {b : Branch}
    (h : Holds (ofTerm (.choice ts)) ((choiceField, .mark (.choice index)) :: rest) b) : b.choice? = some index := by
  have several : (ofTerm (.choice ts)).isSingle choiceField = false :=
    covers_ofTerm _ choiceField (by simp [occurrences])
  rw [Branch.choice?, h.many_eq_values several, Entries.values_cons_self]

end Generic
end GrammarKit
