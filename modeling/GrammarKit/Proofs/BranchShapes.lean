/-
Module: GrammarKit.Proofs.BranchShapes
Purpose: The counters of a term fix the shape of its branches.  In every branch of the generic tree of a parse, the
  number of values of each field is within the bounds that the counters give for the term of the branch, which is
  the body of a rule or the term of a capture; the counters alone say which fields hold one value and which hold a
  list, and which fields are always there.
Main exports: Visit, Opens, Sized, SizedThroughout, sizedRule_of_shaped, Parsers.toGeneric_sized,
  Parsers.toGeneric_duplicateField
-/
import GrammarKit.Proofs.Bridge
import GrammarKit.Proofs.RequiredFields

namespace GrammarKit
namespace Generic

open Counters

/-! ### Branches and their terms -/

/-- A tree that is walked by a term in a scope. -/
structure Visit where
  scope : Scope
  term : Term
  tree : Tree

/-- The walk of a visit opens a branch for another visit, whose branch becomes a value of a field: for the body of
each rule that it comes to, and for the term of each capture. -/
inductive Opens : Visit → String → Visit → Prop
  | rule {scope inner : Scope} {name : String} {body : Term} {tree : Tree} : scope.find? name = some (body, inner) →
      Opens ⟨scope, .rule name, tree⟩ (baseName name) ⟨inner, body, tree⟩
  | capture {scope : Scope} {name : String} {t : Term} {tree : Tree} :
      Opens ⟨scope, .capture name t, tree⟩ name ⟨scope, t, tree⟩
  | cut {scope : Scope} {t : Term} {tree : Tree} {field : String} {v : Visit} :
      Opens ⟨scope, t, tree⟩ field v → Opens ⟨scope, .cut t, tree⟩ field v
  | withRules {scope : Scope} {t : Term} {rules : Grammar} {tree : Tree} {field : String} {v : Visit} :
      Opens ⟨rules :: scope, t, tree⟩ field v → Opens ⟨scope, .withRules t rules, tree⟩ field v
  | seq {scope : Scope} {ts : List Term} {index : Nat} {t : Term} {tag : String} {extra : Option Extra}
      {children : List Tree} {child : Tree} {field : String} {v : Visit} : ts[index]? = some t →
      children[index]? = some child → Opens ⟨scope, t, child⟩ field v →
      Opens ⟨scope, .seq ts, .node tag extra children⟩ field v
  | choice {scope : Scope} {ts : List Term} {index : Nat} {t : Term} {tag : String} {child : Tree} {field : String}
      {v : Visit} : ts[index]? = some t → Opens ⟨scope, t, child⟩ field v →
      Opens ⟨scope, .choice ts, .node tag (some (.choice index)) [child]⟩ field v
  | quant {scope : Scope} {t : Term} {min max : Nat} {tag : String} {extra : Option Extra} {children : List Tree}
      {child : Tree} {field : String} {v : Visit} : child ∈ children → Opens ⟨scope, t, child⟩ field v →
      Opens ⟨scope, .quant t min max, .node tag extra children⟩ field v
  | element {scope : Scope} {element separator : Term} {style : ListStyle} {tree slot : Tree} {slots : List Tree}
      {index : Nat} {field : String} {v : Visit} : tree.slots? = some slots → slots[2 * index]? = some slot →
      slot ≠ .elided → Opens ⟨scope, element, slot⟩ field v → Opens ⟨scope, .list element separator style, tree⟩ field v
  | separator {scope : Scope} {element separator : Term} {style : ListStyle} {tree slot : Tree} {slots : List Tree}
      {index : Nat} {field : String} {v : Visit} : tree.slots? = some slots → slots[2 * index + 1]? = some slot →
      slot ≠ .elided → Opens ⟨scope, separator, slot⟩ field v →
      Opens ⟨scope, .list element separator style, tree⟩ field v

/-- The fields of a branch are as the counters of a term say.  Upper bounds of two or more stand for no bound. -/
structure Sized (t : Term) (b : Branch) : Prop where
  least : ∀ field, ((ofTerm t).of field).lo ≤ (b.all field).length
  most : ∀ field, ((ofTerm t).of field).hi < 2 → (b.all field).length ≤ ((ofTerm t).of field).hi
  one_iff : ∀ field values, b.get? field = some values →
    ((∃ node, values = .one node) ↔ (ofTerm t).of field = ⟨1, 1⟩ ∨ (ofTerm t).of field = ⟨0, 1⟩)
  known : ∀ field values, b.get? field = some values → field ∈ (ofTerm t).names
  always_one : ∀ field, (ofTerm t).of field = ⟨1, 1⟩ → ∃ node, b.get? field = some (.one node)
  always_many : ∀ field ∈ (ofTerm t).names, (ofTerm t).of field ≠ ⟨1, 1⟩ → (ofTerm t).of field ≠ ⟨0, 1⟩ →
    ∃ nodes, b.get? field = some (.many nodes)

mutual
/-- The branch of a visit is as the counters of its term say, and so is every branch in it, at any depth. -/
inductive SizedThroughout : Visit → Branch → Prop
  | intro {v b} : Sized v.term b → (∀ field child, .branch child ∈ b.all field → SizedValue v field child) →
      SizedThroughout v b

/-- A branch in a field is what becomes of a visit that is opened for the field, and it is as the counters of the
term of that visit say. -/
inductive SizedValue : Visit → String → Branch → Prop
  | intro {v field inner child n} : Opens v field inner → ofRule n inner.scope inner.term inner.tree = .ok child →
      SizedThroughout inner child → SizedValue v field child
end

theorem SizedValue.of_opens {v v' : Visit} {field : String} {child : Branch} (h : SizedValue v field child)
    (wider : ∀ inner, Opens v field inner → Opens v' field inner) : SizedValue v' field child := by
  cases h with
  | intro opens made sized => exact .intro (wider _ opens) made sized

/-! ### Numbers of values -/

/-- Entries of which there are no fewer than a bound says. -/
def AtLeast (least : String → Nat) (entries : Entries) : Prop :=
  ∀ field, least field ≤ (entries.values field).length

namespace AtLeast

variable {least least' : String → Nat} {entries entries' : Entries}

theorem mono (h : AtLeast least entries) (le : ∀ field, least' field ≤ least field) : AtLeast least' entries :=
  fun field => Nat.le_trans (le field) (h field)

theorem append (h : AtLeast least entries) (h' : AtLeast least' entries') :
    AtLeast (fun field => least field + least' field) (entries ++ entries') := by
  intro field
  rw [Entries.values_append, List.length_append]
  exact Nat.add_le_add (h field) (h' field)

/-- More entries are no fewer. -/
theorem cons (h : AtLeast least entries) (entry : String × Node) : AtLeast least (entry :: entries) := by
  intro field
  have here := h field
  rw [show entry :: entries = [entry] ++ entries from rfl, Entries.values_append, List.length_append]
  omega

theorem single {name : String} (few : ∀ field, least field ≤ if field = name then 1 else 0) (node : Node) :
    AtLeast least [(name, node)] := by
  intro field
  refine Nat.le_trans (few field) ?_
  split
  · next same =>
    subst same
    rw [Entries.values_cons_self]
    exact Nat.le_add_left _ _
  · exact Nat.zero_le _

theorem flatten {parts : List Entries} (each : ∀ part ∈ parts, AtLeast least part) :
    AtLeast (fun field => parts.length * least field) parts.flatten := by
  induction parts with
  | nil =>
    intro field
    simp
  | cons part parts ih =>
    obtain ⟨here, others⟩ := List.forall_mem_cons.mp each
    refine (here.append (ih others)).mono fun field => ?_
    simp only [List.length_cons, Nat.succ_mul]
    omega

/-- It is enough that one part has enough. -/
theorem flatten_of_mem {parts : List Entries} {part : Entries} (member : part ∈ parts) (h : AtLeast least part) :
    AtLeast least parts.flatten := by
  obtain ⟨before, after, rfl⟩ := List.append_of_mem member
  intro field
  have here := h field
  rw [List.flatten_append, List.flatten_cons, Entries.values_append, Entries.values_append, List.length_append,
    List.length_append]
  omega

end AtLeast

/-- Entries that are within bounds on both sides, and the branches among them are values of a kind. -/
structure Amount (most least : String → Nat) (value : String → Branch → Prop) (entries : Entries) : Prop where
  most : Within most entries
  least : AtLeast least entries
  children : ∀ field child, (field, .branch child) ∈ entries → value field child

namespace Amount

variable {most most' least least' : String → Nat} {value value' : String → Branch → Prop} {entries entries' : Entries}

theorem mono (h : Amount most least value entries) (more : ∀ field, most field ≤ most' field)
    (less : ∀ field, least' field ≤ least field) (wider : ∀ field child, value field child → value' field child) :
    Amount most' least' value' entries :=
  ⟨h.most.mono more, h.least.mono less, fun field child member => wider field child (h.children field child member)⟩

theorem widen (h : Amount most least value entries) (wider : ∀ field child, value field child → value' field child) :
    Amount most least value' entries :=
  h.mono (fun _ => Nat.le_refl _) (fun _ => Nat.le_refl _) wider

theorem nil : Amount (fun _ => 0) (fun _ => 0) value [] :=
  ⟨.nil _, fun _ => Nat.zero_le _, fun _ _ member => nomatch member⟩

theorem append (h : Amount most least value entries) (h' : Amount most' least' value entries') :
    Amount (fun field => most field + most' field) (fun field => least field + least' field) value
      (entries ++ entries') := by
  refine ⟨h.most.append h'.most, h.least.append h'.least, fun field child member => ?_⟩
  exact (List.mem_append.mp member).elim (h.children field child) (h'.children field child)

/-- Bookkeeping adds to the upper bound of its field only. -/
theorem mark (h : Amount most least value entries) (name : String) (m : Mark) :
    Amount (fun field => (if field = name then 2 else 0) + most field) least value ((name, .mark m) :: entries) := by
  have marked : Within (fun field => if field = name then 2 else 0) [(name, .mark m)] := .single (by simp) _
  refine ⟨marked.append h.most, h.least.cons _, fun field child member => h.children field child ?_⟩
  exact (List.mem_cons.mp member).resolve_left fun same => nomatch congrArg Prod.snd same

end Amount

/-- The walk of a visit adds as many values to the branch that is open as its term allows and requires, and the
branches among them are sized throughout. -/
def Measured (n : Nat) (v : Visit) : Prop :=
  ∃ entries, Amount (occurrences · v.term) (required · v.term) (SizedValue v) entries ∧
    ∀ {counters : Counters}, counters.Covers v.term →
      Puts counters (collect (ofRule n) v.scope counters v.term v.tree) entries

/-! ### Whole branches -/

theorem Holds.all_eq {counters : Counters} {entries : Entries} {b : Branch} (h : Holds counters entries b)
    (field : String) : b.all field = entries.values field := by
  have here := h.field field
  unfold Branch.all
  generalize entries.values field = values at here
  generalize b.get? field = present at here
  generalize counters.isSingle field = single at here
  cases here with
  | absent => rfl
  | one => rfl
  | many => rfl

theorem isSingle_iff {counters : Counters} {field : String} :
    counters.isSingle field = true ↔ counters.of field = ⟨1, 1⟩ ∨ counters.of field = ⟨0, 1⟩ := by
  rw [isSingle, Cardinality.isSingle, Bool.or_eq_true, beq_iff_eq, beq_iff_eq]

theorem mem_listFields {counters : Counters} (ordered : counters.Ordered) {field : String} :
    field ∈ counters.listFields ↔ field ∈ counters.names ∧ counters.isSingle field = false := by
  have known : ∀ {c}, (field, c) ∈ counters.entries → counters.of field = c := by
    intro c member
    rw [of, ordered.get?_of_mem member, Option.getD_some]
  constructor
  · intro listed
    obtain ⟨⟨_, c⟩, kept, rfl⟩ := List.mem_map.mp listed
    obtain ⟨member, several⟩ := List.mem_filter.mp kept
    refine ⟨List.mem_map_of_mem member, ?_⟩
    rw [isSingle, known member]
    simpa using several
  · rintro ⟨named, several⟩
    obtain ⟨⟨_, c⟩, member, rfl⟩ := List.mem_map.mp named
    refine List.mem_map.mpr ⟨_, List.mem_filter.mpr ⟨member, ?_⟩, rfl⟩
    rw [isSingle, known member] at several
    simpa using several

/-- An empty branch has exactly the fields that hold lists. -/
theorem get?_emptyBranch_eq {counters : Counters} (ordered : counters.Ordered) (field : String) :
    counters.emptyBranch.get? field
      = if field ∈ counters.names ∧ counters.isSingle field = false then some (.many []) else none := by
  simp only [← mem_listFields ordered]
  show Table.lookup field (counters.listFields.map (·, Field.many [])) = _
  induction counters.listFields with
  | nil => rfl
  | cons first fields ih =>
    rw [List.map_cons, Table.lookup, ih]
    by_cases same : first = field
    · simp [same]
    · simp [same, Ne.symm same]

theorem occurrences_eq_zero {t : Term} {field : String} (unknown : field ∉ (ofTerm t).names) :
    occurrences field t = 0 := by
  have hi := (ofTerm_spec t).2.1 field
  have never : (ofTerm t).of field = .never := by
    unfold of Table.get?
    rw [Option.not_isSome_iff_eq_none.mp (mt Table.lookup_isSome.mp unknown)]
    rfl
  rw [never] at hi
  have : (0 : Nat) = min (occurrences field t) 2 := hi
  omega

/-- A branch that holds as many entries as a term allows and requires, and whose other fields are those of an empty
branch, is sized. -/
theorem Amount.sized {t : Term} {value : String → Branch → Prop} {entries : Entries} {b : Branch}
    (h : Amount (occurrences · t) (required · t) value entries) (holds : Holds (ofTerm t) entries b)
    (frame : ∀ field, entries.values field = [] → b.get? field = (ofTerm t).emptyBranch.get? field) : Sized t b := by
  have most : ∀ field, ((ofTerm t).of field).hi < 2 →
      (entries.values field).length ≤ ((ofTerm t).of field).hi := by
    intro field few
    have hi := (ofTerm_spec t).2.1 field
    have := h.most field (by omega)
    omega
  refine ⟨fun field => ?_, fun field few => ?_, fun field values present => ?_, fun field values present => ?_,
    fun field exact => ?_, fun field known several several' => ?_⟩
  · rw [holds.all_eq, lo_ofTerm]
    exact h.least field
  · rw [holds.all_eq]
    exact most field few
  · rw [← isSingle_iff]
    have here := holds.field field
    rw [present] at here
    generalize (ofTerm t).isSingle field = single at here ⊢
    generalize entries.values field = nodes at here
    cases here with
    | one => simp
    | many => simp
  · by_contra unknown
    have none : entries.values field = [] := by
      have never := occurrences_eq_zero unknown
      have := h.most field (by omega)
      exact List.eq_nil_of_length_eq_zero (by omega)
    rw [frame field none, get?_emptyBranch_eq (ofTerm_spec t).1, if_neg fun named => unknown named.1] at present
    cases present
  · have here := holds.field field
    have some : 1 ≤ (entries.values field).length := by
      have lo := lo_ofTerm field t
      rw [exact] at lo
      exact Nat.le_trans (Nat.le_of_eq lo) (h.least field)
    rw [isSingle_iff.mpr (.inl exact)] at here
    generalize entries.values field = nodes at here some
    generalize b.get? field = present at here
    cases here with
    | absent => cases some
    | one => exact ⟨_, rfl⟩
  · have here := holds.field field
    have kind : (ofTerm t).isSingle field = false := by
      rw [Bool.eq_false_iff]
      exact fun single => (isSingle_iff.mp single).elim several several'
    have empty := frame field
    rw [get?_emptyBranch_eq (ofTerm_spec t).1, if_pos ⟨known, kind⟩] at empty
    rw [kind] at here
    generalize entries.values field = nodes at here empty
    generalize b.get? field = present at here empty
    cases here with
    | absent => cases empty rfl
    | many => exact ⟨_, rfl⟩

/-- What a visit adds fills a branch that is sized throughout. -/
theorem Measured.whole {n : Nat} {v : Visit} (h : Measured n v) :
    ∃ child, ofRule (n + 1) v.scope v.term v.tree = .ok child ∧ SizedThroughout v child := by
  obtain ⟨entries, amount, puts⟩ := h
  have empty := Holds.empty (ofTerm_spec v.term).1
  obtain ⟨child, made, holds, frame⟩ := puts (covers_ofTerm v.term) empty amount.most.fitting
  rw [List.nil_append] at holds
  refine ⟨child, made, .intro (amount.sized holds frame) fun field inner member => ?_⟩
  rw [holds.all_eq, Entries.mem_values] at member
  exact amount.children field inner member

/-! ### Parts of a term -/

section Measured

variable {n : Nat} {scope : Scope} {t : Term} {tree : Tree}

/-- A leaf in a field. -/
theorem measured_leaf (field : String) {s : Slice} (room : 0 < occurrences field t)
    (few : ∀ other, required other t ≤ if other = field then 1 else 0)
    (write : ∀ counters b, collect (ofRule n) scope counters t (.leaf s) b = addLeaf counters field t b (.leaf s)) :
    Measured n ⟨scope, t, .leaf s⟩ := by
  refine ⟨[(field, .leaf s)], ⟨.single room _, .single few _, fun other child member => ?_⟩, fun {counters} _ => ?_⟩
  · exact nomatch congrArg Prod.snd (List.mem_singleton.mp member)
  · exact (Transfer.leaf counters 0 field t s).write.congr (write counters)

/-- A branch in a field, for a visit that is opened for the field. -/
theorem measured_branch {v inner : Visit} {name : String} {child : Branch} (opens : Opens v name inner)
    (made : ofRule n inner.scope inner.term inner.tree = .ok child) (sized : SizedThroughout inner child)
    (room : 0 < occurrences name v.term) (few : ∀ other, required other v.term ≤ if other = name then 1 else 0)
    {m : Nat} (write : ∀ counters b, collect (ofRule m) v.scope counters v.term v.tree b
      = lift (b.add name (.branch child) (counters.isSingle name))) : Measured m v := by
  refine ⟨[(name, .branch child)], ⟨.single room _, .single few _, fun other child' member => ?_⟩,
    fun {counters} _ => ?_⟩
  · obtain ⟨rfl, same⟩ := Prod.mk.inj (List.mem_singleton.mp member)
    obtain rfl := Node.branch.inj same
    exact .intro opens made sized
  · exact (Transfer.branch counters 0 name child).write.congr (write counters)

theorem measured_rule {name : String} {body : Term} {inner : Scope} {child : Branch}
    (found : scope.find? name = some (body, inner)) (made : ofRule n inner body tree = .ok child)
    (sized : SizedThroughout ⟨inner, body, tree⟩ child) : Measured n ⟨scope, .rule name, tree⟩ := by
  refine measured_branch (.rule found) made sized (by simp [occurrences]) (fun _ => Nat.le_refl _) fun counters b => ?_
  rw [collect, found]
  show (ofRule n inner body tree >>= _) = _
  rw [made]
  rfl

theorem measured_capture {name : String} (h : Measured n ⟨scope, t, tree⟩) :
    Measured n ⟨scope, .capture name t, tree⟩ := by
  obtain ⟨child, made, sized⟩ := h.whole
  refine measured_branch .capture made sized (by simp [occurrences]) (fun other => Nat.le_refl _) fun counters b => ?_
  rw [collect]
  show (ofRule (n + 1) scope t tree >>= _) = _
  rw [made]
  rfl

/-- A term that leaves what it does to the term inside. -/
theorem Measured.inside {v v' : Visit} (h : Measured n v)
    (most : ∀ field, occurrences field v.term = occurrences field v'.term)
    (least : ∀ field, required field v'.term = required field v.term)
    (opens : ∀ {field inner}, Opens v field inner → Opens v' field inner)
    (write : ∀ counters b, collect (ofRule n) v'.scope counters v'.term v'.tree b
      = collect (ofRule n) v.scope counters v.term v.tree b) : Measured n v' := by
  obtain ⟨entries, amount, puts⟩ := h
  refine ⟨entries, amount.mono (fun field => Nat.le_of_eq (most field)) (fun field => Nat.le_of_eq (least field))
    (fun _ _ value => value.of_opens fun _ => opens), fun covers => ?_⟩
  exact (puts (covers.mono fun field => Nat.le_of_eq (most field))).congr (write _)

/-! ### Sequences and choices -/

/-- A branch comes from one of some trees that are walked by as many terms. -/
def FromItem (scope : Scope) (ts : List Term) (trees : List Tree) (field : String) (b : Branch) : Prop :=
  ∃ (index : Nat) (t : Term) (tree : Tree), ts[index]? = some t ∧ trees[index]? = some tree ∧
    SizedValue ⟨scope, t, tree⟩ field b

/-- The items of a sequence, one after the other. -/
def MeasuredItems (n : Nat) (scope : Scope) (ts : List Term) (trees : List Tree) : Prop :=
  ∃ entries, Amount (occurrencesAll · ts) (requiredAll · ts) (FromItem scope ts trees) entries ∧
    ∀ {counters : Counters}, (∀ t ∈ ts, counters.Covers t) →
      Puts counters (collectItems (ofRule n) scope counters ts trees) entries

theorem MeasuredItems.cons {ts : List Term} {trees : List Tree} (h : Measured n ⟨scope, t, tree⟩)
    (others : MeasuredItems n scope ts trees) : MeasuredItems n scope (t :: ts) (tree :: trees) := by
  obtain ⟨entries, amount, puts⟩ := h
  obtain ⟨entries', amount', puts'⟩ := others
  have first : Amount (occurrences · t) (required · t) (FromItem scope (t :: ts) (tree :: trees)) entries :=
    amount.widen fun field b value => ⟨0, t, tree, rfl, rfl, value⟩
  refine ⟨entries ++ entries', first.append (amount'.widen ?_), fun covers => ?_⟩
  · rintro field b ⟨index, u, other, found, found', value⟩
    exact ⟨index + 1, u, other, found, found', value⟩
  · have later := puts' fun t member => covers t (List.mem_cons_of_mem _ member)
    have both := (puts (covers t List.mem_cons_self)).bind later
    exact both.congr fun b => by rw [collectItems]

theorem measured_seq {ts : List Term} {trees : List Tree} {tag : String} (length : trees.length = ts.length)
    (items : MeasuredItems n scope ts trees) : Measured n ⟨scope, .seq ts, .node tag none trees⟩ := by
  obtain ⟨entries, amount, puts⟩ := items
  refine ⟨entries, amount.widen ?_, fun {counters} covers => ?_⟩
  · rintro field child ⟨index, t, tree, found, found', value⟩
    exact value.of_opens fun _ opens => .seq found found' opens
  · refine (puts fun t member => covers.mono fun _ => occurrences_le_all member).congr fun b => ?_
    rw [collect]
    show (if _ then _ else _) = _
    rw [if_pos length]

theorem measured_choice {ts : List Term} {index : Nat} {tag : String} (found : ts[index]? = some t)
    (h : Measured n ⟨scope, t, tree⟩) : Measured n ⟨scope, .choice ts, .node tag (some (.choice index)) [tree]⟩ := by
  obtain ⟨entries, amount, puts⟩ := h
  have member : t ∈ ts := List.mem_of_getElem? found
  have wider : Amount (occurrencesMost · ts) (requiredLeast · ts)
      (SizedValue ⟨scope, .choice ts, .node tag (some (.choice index)) [tree]⟩) entries :=
    amount.mono (fun _ => occurrences_le_most member) (fun _ => requiredLeast_le member)
      fun field b value => value.of_opens fun _ opens => .choice found opens
  refine ⟨_, wider.mark choiceField (.choice index), fun {counters} covers => ?_⟩
  have several : counters.isSingle choiceField = false := covers choiceField (by simp [occurrences])
  have inner := puts (covers.mono fun field => Nat.le_trans (occurrences_le_most member) (Nat.le_add_left _ _))
  refine ((Transfer.mark 0 several (.choice index)).write.bind inner).congr fun b => ?_
  rw [collect]
  show collectChosen (ofRule n) scope counters _ _ index ts index tree b = _
  rw [collectChosen_eq counters _ _ index b found]

/-! ### Repetitions -/

/-- Trees one after the other, all by one term. -/
theorem measured_times {children : List Tree} (each : ∀ child ∈ children, Measured n ⟨scope, t, child⟩) :
    ∃ parts : List Entries, parts.length = children.length ∧
      (∀ part ∈ parts, Amount (occurrences · t) (required · t)
        (fun field b => ∃ child ∈ children, SizedValue ⟨scope, t, child⟩ field b) part) ∧
      ∀ {counters : Counters}, counters.Covers t → Puts counters
        (fun b => children.foldlM (fun b child => collect (ofRule n) scope counters t child b) b) parts.flatten := by
  induction children with
  | nil => exact ⟨[], rfl, nofun, fun {counters} _ => .done counters⟩
  | cons child children ih =>
    obtain ⟨entries, amount, here⟩ := each child List.mem_cons_self
    obtain ⟨parts, number, amounts, others⟩ := ih fun child member => each child (List.mem_cons_of_mem _ member)
    refine ⟨entries :: parts, congrArg (· + 1) number, List.forall_mem_cons.mpr ⟨?_, fun part member => ?_⟩,
      fun {counters} covers => ?_⟩
    · exact amount.widen fun field b value => ⟨child, List.mem_cons_self, value⟩
    · exact (amounts part member).widen fun field b ⟨child, inside, value⟩ =>
        ⟨child, List.mem_cons_of_mem _ inside, value⟩
    · exact ((here covers).bind (others covers)).congr fun b => by rw [List.foldlM_cons]

theorem measured_quant {min max : Nat} {trees : List Tree} {tag : String} (least : min ≤ trees.length)
    (most : max ≠ 0 → trees.length ≤ max) (each : ∀ tree ∈ trees, Measured n ⟨scope, t, tree⟩) :
    Measured n ⟨scope, .quant t min max, .node tag none trees⟩ := by
  obtain ⟨parts, number, amounts, puts⟩ := measured_times each
  have repeated : Within (fun field => (if max = 0 then 2 else max) * occurrences field t) parts.flatten := by
    by_cases unbounded : max = 0
    · rw [if_pos unbounded]
      exact .flatten (fun part member => (amounts part member).most) Nat.two_pos (.inr (Nat.le_refl 2))
    · rw [if_neg unbounded]
      exact .flatten (fun part member => (amounts part member).most) (Nat.pos_of_ne_zero unbounded)
        (.inl (number ▸ most unbounded))
  have enough : AtLeast (fun field => min * required field t) parts.flatten :=
    (AtLeast.flatten fun part member => (amounts part member).least).mono
      fun field => Nat.mul_le_mul_right _ (number ▸ least)
  have amount : Amount (fun field => (if max = 0 then 2 else max) * occurrences field t)
      (fun field => min * required field t) (SizedValue ⟨scope, .quant t min max, .node tag none trees⟩)
      parts.flatten := by
    refine ⟨repeated, enough, fun field b member => ?_⟩
    obtain ⟨part, inside, member⟩ := List.mem_flatten.mp member
    obtain ⟨child, among, value⟩ := (amounts part inside).children field b member
    exact value.of_opens fun _ opens => .quant among opens
  refine ⟨_, amount.mark countField (.count trees.length), fun {counters} covers => ?_⟩
  have several : counters.isSingle countField = false := covers countField (by simp [occurrences])
  have inner := puts (covers.mono fun field => by
    rw [occurrences]
    refine Nat.le_trans (Nat.le_mul_of_pos_left _ ?_) (Nat.le_add_left _ _)
    split <;> omega)
  refine ((Transfer.mark 0 several (.count trees.length)).write.bind inner).congr fun b => ?_
  rw [collect]
  rfl

/-! ### Lists -/

/-- A branch comes from one of some slots, which are elements and separators in turn. -/
inductive FromSlot (scope : Scope) (element separator : Term) (slots : List Tree) (field : String) (b : Branch) : Prop
  | element (index : Nat) {slot : Tree} : slots[2 * index]? = some slot → slot ≠ .elided →
      SizedValue ⟨scope, element, slot⟩ field b → FromSlot scope element separator slots field b
  | separator (index : Nat) {slot : Tree} : slots[2 * index + 1]? = some slot → slot ≠ .elided →
      SizedValue ⟨scope, separator, slot⟩ field b → FromSlot scope element separator slots field b

theorem FromSlot.later {element separator : Term} {slots : List Tree} {field : String} {b : Branch}
    (h : FromSlot scope element separator slots field b) (slot between : Tree) :
    FromSlot scope element separator (slot :: between :: slots) field b := by
  cases h with
  | element index found present value => exact .element (index + 1) found present value
  | separator index found present value => exact .separator (index + 1) found present value

/-- A slot of a list: nothing, or else a tree by the term of the slot. -/
theorem measured_slot {P : Tree → Prop} (inside : ∀ {slot}, P slot → slot ≠ .elided ∧ Measured n ⟨scope, t, slot⟩)
    {left : Bool} {slot : Tree} (h : (if left then (· = .elided) else P) slot) :
    ∃ part, Within (occurrences · t) part ∧ (left = false → AtLeast (required · t) part) ∧
      (∀ field b, (field, .branch b) ∈ part → slot ≠ .elided ∧ SizedValue ⟨scope, t, slot⟩ field b) ∧
      ∀ {counters : Counters}, counters.Covers t → ∀ other,
        Puts counters (Term.walkSlots (collect (ofRule n) scope counters t) other [slot]) part := by
  cases left with
  | true =>
    obtain rfl := h
    exact ⟨[], .nil _, nofun, nofun, fun {counters} _ _ => .done counters⟩
  | false =>
    obtain ⟨present, part, amount, puts⟩ := inside h
    refine ⟨part, amount.most, fun _ => amount.least, fun field b member => ⟨present, amount.children field b member⟩,
      fun covers other => (puts covers).congr fun b => ?_⟩
    rw [Tree.walkSlots_present _ _ _ _ present]
    exact bind_pure _

/-- The slots of a list.  A list with room for its elided ends has an element. -/
theorem measured_slots {E S : Tree → Prop} {element separator : Term}
    (elements : ∀ {slot}, E slot → slot ≠ .elided ∧ Measured n ⟨scope, element, slot⟩)
    (separators : ∀ {slot}, S slot → slot ≠ .elided ∧ Measured n ⟨scope, separator, slot⟩)
    {leading trailing : Bool} {left : Nat} {first : Bool} {slots : List Tree}
    (fits : Term.Fits (slotPattern E S (· = .elided) leading trailing left first) slots) :
    ∃ parts : List Entries,
      (∀ part ∈ parts, Within (fun field => occurrences field element + occurrences field separator) part) ∧
      ((first && leading).toNat + trailing.toNat ≤ left → ∃ part ∈ parts, AtLeast (required · element) part) ∧
      (∀ part ∈ parts, ∀ field b, (field, .branch b) ∈ part → FromSlot scope element separator slots field b) ∧
      ∀ {counters : Counters}, counters.Covers element → counters.Covers separator →
        Puts counters (Term.walkSlots (collect (ofRule n) scope counters element)
          (collect (ofRule n) scope counters separator) slots) parts.flatten := by
  have wider {part : Entries} (h : Within (occurrences · element) part) :
      Within (fun field => occurrences field element + occurrences field separator) part :=
    h.mono fun _ => Nat.le_add_right _ _
  induction left generalizing first slots with
  | zero =>
    match slots, fits with
    | [slot], ⟨here, _⟩ =>
      obtain ⟨part, room, enough, values, puts⟩ := measured_slot elements here
      refine ⟨[part], List.forall_mem_singleton.mpr (wider room), fun ends => ⟨part, List.mem_cons_self, enough ?_⟩,
        List.forall_mem_singleton.mpr fun field b member => ?_, fun covers _ => ?_⟩
      · cases h : first && leading <;> cases trailing <;> simp [h] at ends ⊢
      · obtain ⟨present, value⟩ := values field b member
        exact .element 0 rfl present value
      · rw [List.flatten_singleton]
        exact puts covers _
  | succ left ih =>
    match slots, fits with
    | slot :: between :: slots, ⟨here, separated, fits⟩ =>
      obtain ⟨part, room, enough, values, puts⟩ := measured_slot elements here
      obtain ⟨part', room', -, values', puts'⟩ :=
        @measured_slot n scope separator S separators false between separated
      obtain ⟨parts, rooms, some, inside, others⟩ := ih fits
      refine ⟨part :: part' :: parts, ?_, fun ends => ?_, ?_, fun {counters} covers covers' => ?_⟩
      · exact List.forall_mem_cons.mpr ⟨wider room, List.forall_mem_cons.mpr
          ⟨room'.mono fun _ => Nat.le_add_left _ _, rooms⟩⟩
      · -- the first slot is an element unless it is elided, and then there is one behind it
        cases start : first && leading with
        | false => exact ⟨part, List.mem_cons_self, enough start⟩
        | true =>
          rw [start] at ends
          obtain ⟨later, member, enough⟩ := some (by simpa [Nat.add_comm] using ends)
          exact ⟨later, List.mem_cons_of_mem _ (List.mem_cons_of_mem _ member), enough⟩
      · refine List.forall_mem_cons.mpr ⟨fun field b member => ?_, List.forall_mem_cons.mpr
          ⟨fun field b member => ?_, fun later among field b member => ?_⟩⟩
        · obtain ⟨present, value⟩ := values field b member
          exact .element 0 rfl present value
        · obtain ⟨present, value⟩ := values' field b member
          exact .separator 0 rfl present value
        · exact (inside later among field b member).later slot between
      · have all := (puts covers (collect (ofRule n) scope counters separator)).bind
          ((puts' covers' (collect (ofRule n) scope counters element)).bind (others covers covers'))
        refine all.congr fun b => ?_
        rw [Tree.walkSlots_cons]
        congr 1
        funext b
        exact Tree.walkSlots_cons _ _ _ _ _

theorem measured_list {E S : Tree → Prop} {element separator : Term} {style : ListStyle} {tag : String}
    (elements : ∀ {slot}, E slot → slot ≠ .elided ∧ Measured n ⟨scope, element, slot⟩)
    (separators : ∀ {slot}, S slot → slot ≠ .elided ∧ Measured n ⟨scope, separator, slot⟩)
    {leading trailing : Bool} {left : Nat} {slots : List Tree} (terms : leading.toNat + trailing.toNat ≤ left)
    (fits : Term.Fits (slotPattern E S (· = .elided) leading trailing left true) slots) :
    Measured n ⟨scope, .list element separator style, .ofSlots tag style.assoc slots⟩ := by
  obtain ⟨parts, rooms, enough, values, puts⟩ := measured_slots elements separators fits
  have opened := Tree.slots?_ofSlots tag style.assoc fits.length_slots
  have amount : Amount (fun field => 2 * (occurrences field element + occurrences field separator))
      (required · element) (SizedValue ⟨scope, .list element separator style, .ofSlots tag style.assoc slots⟩)
      parts.flatten := by
    obtain ⟨part, member, least⟩ := enough terms
    refine ⟨.flatten rooms Nat.two_pos (.inr (Nat.le_refl 2)), .flatten_of_mem member least, fun field b inside => ?_⟩
    obtain ⟨part, among, inside⟩ := List.mem_flatten.mp inside
    cases values part among field b inside with
    | element _ found present value => exact value.of_opens fun _ opens => .element opened found present opens
    | separator _ found present value => exact value.of_opens fun _ opens => .separator opened found present opens
  refine ⟨_, (amount.mark listField (listMark slots)).mono (fun field => ?_) (fun _ => Nat.le_refl _)
    fun _ _ => id, fun {counters} covers => ?_⟩
  · rw [occurrences, Nat.mul_add, Nat.add_assoc]
  · have several : counters.isSingle listField = false := by
      apply covers listField
      rw [occurrences, if_pos rfl]
      omega
    have inner := puts (covers.mono fun field => by rw [occurrences]; omega)
      (covers.mono fun field => by rw [occurrences]; omega)
    refine ((Transfer.mark 0 several _).write.bind inner).congr fun b => ?_
    rw [collect, Tree.listSlots_ofSlots _ _ _ fits.length_slots]
    rfl

end Measured

/-! ### Whole trees -/

/-- Whatever rules are entered, their branches are sized throughout. -/
def RulesSized (n : Nat) : Prop :=
  ∀ {scope body name tree}, Term.ShapedRule n scope body name tree →
    ∃ child, ofRule n scope body tree = .ok child ∧ SizedThroughout ⟨scope, body, tree⟩ child

mutual
/-- The walk over a tree that conforms to a term is measured. -/
theorem measured_of_shaped {n : Nat} (rules : RulesSized n) :
    ∀ (t : Term) {scope : Scope} {label : Option String} {tree : Tree},
      Term.Shaped (Term.ShapedRule n) scope label t tree → Measured n ⟨scope, t, tree⟩
  | .literal _, _, _, _, ⟨_, rfl⟩ =>
    measured_leaf "" (by simp [occurrences]) (fun _ => Nat.le_refl _) fun _ _ => by rw [collect]
  | .regex _, _, _, _, ⟨_, rfl⟩ =>
    measured_leaf "" (by simp [occurrences]) (fun _ => Nat.le_refl _) fun _ _ => by rw [collect]
  | .backref name _, _, _, _, ⟨_, rfl⟩ =>
    measured_leaf name (by simp [occurrences]) (fun _ => Nat.le_refl _) fun _ _ => by rw [collect]
  | .rule _, _, _, _, ⟨_, _, found, inside⟩ => by
    obtain ⟨child, made, sized⟩ := rules inside
    exact measured_rule found made sized
  | .capture _ t, _, _, _, h => by
    rw [Term.Shaped] at h
    exact measured_capture (measured_of_shaped rules t h)
  | .cut t, _, _, _, h => by
    rw [Term.Shaped] at h
    exact (measured_of_shaped rules t h).inside (fun _ => by rw [occurrences]) (fun _ => by rw [required]) .cut
      fun _ _ => by rw [collect]
  | .withRules t g, _, _, _, h => by
    rw [Term.Shaped] at h
    exact (measured_of_shaped rules t h).inside (fun _ => by rw [occurrences]) (fun _ => by rw [required]) .withRules
      fun _ _ => by rw [collect]
  | .seq ts, _, _, _, ⟨_, rfl, items⟩ =>
    measured_seq items.length_eq (measuredItems_of_shaped rules ts items)
  | .choice ts, _, _, _, ⟨index, _, rfl, chosen⟩ => by
    obtain ⟨t, found, h⟩ := measuredChosen_of_shaped rules ts chosen
    exact measured_choice found h
  | .quant t _ _, _, _, _, ⟨_, rfl, least, most, each⟩ =>
    measured_quant least most fun child member => measured_of_shaped rules t (each child member)
  | .list element separator _, _, _, _, ⟨_, _, _, _, rfl, terms, fits⟩ =>
    measured_list (fun h => ⟨h.ne_elided Term.ShapedRule.ne_elided, measured_of_shaped rules element h⟩)
      (fun h => ⟨h.ne_elided Term.ShapedRule.ne_elided, measured_of_shaped rules separator h⟩) terms fits
  | .stack _, _, _, _, h => h.elim

theorem measuredItems_of_shaped {n : Nat} (rules : RulesSized n) :
    ∀ (ts : List Term) {scope : Scope} {trees : List Tree},
      Term.ShapedItems (Term.ShapedRule n) scope ts trees → MeasuredItems n scope ts trees
  | [], _, [], _ => ⟨[], .nil, fun {counters} _ => (Puts.done counters).congr fun _ => rfl⟩
  | t :: ts, _, _ :: _, ⟨here, others⟩ =>
    MeasuredItems.cons (measured_of_shaped rules t here) (measuredItems_of_shaped rules ts others)

theorem measuredChosen_of_shaped {n : Nat} (rules : RulesSized n) :
    ∀ (ts : List Term) {scope : Scope} {index : Nat} {child : Tree},
      Term.ShapedChosen (Term.ShapedRule n) scope ts index child →
        ∃ t, ts[index]? = some t ∧ Measured n ⟨scope, t, child⟩
  | t :: _, _, 0, _, h => ⟨t, rfl, measured_of_shaped rules t h⟩
  | _ :: ts, _, _ + 1, _, h => measuredChosen_of_shaped rules ts h
end

/-- The branch of a tree that conforms to the body of a rule is sized throughout. -/
theorem sizedRule_of_shaped (n : Nat) : RulesSized n := by
  induction n with
  | zero => exact fun h => h.elim
  | succ n ih => exact fun h => (measured_of_shaped ih _ h).whole

end Generic

namespace Parsers

open Generic Generic.Counters

variable {g : Grammar} {options : CompileOptions} {p : Parsers}

/-- **The counters of a grammar fix the shape of its generic trees.**  The tree of a parse becomes a branch that is as
the counters of the body of its rule say, and so are the branches of rules and captures in it, at any depth, each by
the term that it was opened for.  The generic tree is that branch with the name of the rule in a field of its own; it
fails to be made only if the branch has a field of that name already, for which the body must count one. -/
theorem toGeneric_sized (compiled : g.compile options = .ok p) (validated : options.validate = true) {rule : String}
    {input rest : Slice} {tree : Tree} (parsed : p.parsePartial rule input = .ok (tree, rest)) :
    ∃ body root, p.flat.get? rule = some body ∧ SizedThroughout ⟨[p.flat], body, tree⟩ root ∧
      (root.get? ruleField = none → p.toGeneric rule tree = .ok (root.insert ruleField (.one (.mark (.rule rule))))) ∧
      (∀ values, root.get? ruleField = some values →
        ruleField ∈ (ofTerm body).names ∧
          p.toGeneric rule tree = .error (.structural (.duplicateField ruleField))) := by
  obtain ⟨noPadding, body, value, shaped⟩ := shaped_of_parsePartial compiled validated parsed
  obtain ⟨root, made, sized⟩ := sizedRule_of_shaped _ shaped
  have named : p.toGeneric rule tree = lift (root.add ruleField (.mark (.rule rule)) true) := by
    rw [toGeneric, Grammar.flatToGeneric, if_neg noPadding, value]
    show (ofRule (p.flat.walkFuel tree) [p.flat] body tree >>= _) = _
    rw [made]
    rfl
  refine ⟨body, root, value, sized, fun absent => ?_, fun values present => ⟨?_, ?_⟩⟩
  · rw [named, Branch.add, absent]
    rfl
  · obtain ⟨sized, -⟩ := sized
    exact sized.known ruleField values present
  · rw [named, Branch.add, present]
    cases values <;> rfl

/-- Letters with commas between them, perhaps one before the first, and with a value behind some of them. -/
def assignments : Grammar :=
  ⟨[("assignments", .list (.capture "assignment" (.seq [.literal "x", .quant (.rule "value") 0 1])) (.literal ",")
      ⟨.flat, true, false⟩),
    ("value", .seq [.literal "=", .literal "1"])]⟩

theorem toGeneric_sized_assignments : ∃ p, assignments.compile {} = .ok p ∧ ∃ tree rest,
    p.parsePartial "assignments" (.ofText ",x=1,x") = .ok (tree, rest) ∧ ∃ body root,
      p.flat.get? "assignments" = some body ∧ SizedThroughout ⟨[p.flat], body, tree⟩ root ∧
        p.toGeneric "assignments" tree = .ok (root.insert ruleField (.one (.mark (.rule "assignments")))) := by
  have checked : (assignments.compile {}).toOption.any (fun p =>
      (p.parsePartial "assignments" (.ofText ",x=1,x")).isOk &&
        (p.flat.get? "assignments").all (occurrences ruleField · = 0)) = true := by
    decide +kernel
  cases compiled : assignments.compile {} with
  | error e =>
    rw [compiled] at checked
    cases checked
  | ok p =>
    simp only [compiled, Except.toOption, Option.any_some, Bool.and_eq_true] at checked
    obtain ⟨parses, free⟩ := checked
    cases parsed : p.parsePartial "assignments" (.ofText ",x=1,x") with
    | error e =>
      rw [parsed] at parses
      cases parses
    | ok found =>
      obtain ⟨tree, rest⟩ := found
      obtain ⟨body, root, value, sized, named, taken⟩ := toGeneric_sized compiled rfl parsed
      rw [value, Option.all_some, decide_eq_true_eq] at free
      refine ⟨p, rfl, tree, rest, parsed, body, root, value, sized, named ?_⟩
      cases present : root.get? ruleField with
      | none => rfl
      | some values =>
        have occurs := (ofTerm_spec body).2.2 ruleField (taken values present).1
        omega

/-- A capture of the name of the field that the root names its rule in. -/
def reserved : Grammar :=
  ⟨[("a", .capture ruleField (.literal "x"))]⟩

/-- A parse whose generic tree would have to hold two values in a field for one. -/
theorem toGeneric_duplicateField : ∃ p, reserved.compile {} = .ok p ∧ ∃ tree,
    p.parse "a" (.ofText "x") = .ok tree ∧
      p.toGeneric "a" tree = .error (.structural (.duplicateField ruleField)) := by
  have checked : (reserved.compile {}).toOption.any (fun p =>
      match p.parse "a" (.ofText "x") with
      | .ok tree =>
          match p.toGeneric "a" tree with
          | .error (.structural (.duplicateField field)) => field == ruleField
          | _ => false
      | .error _ => false) = true := by
    decide +kernel
  cases compiled : reserved.compile {} with
  | error e =>
    rw [compiled] at checked
    cases checked
  | ok p =>
    rw [compiled, Except.toOption, Option.any_some] at checked
    split at checked
    · next tree parsed =>
      split at checked
      · next field failed =>
        obtain rfl := beq_iff_eq.mp checked
        exact ⟨p, rfl, tree, parsed, failed⟩
      · cases checked
    · cases checked

end Parsers
end GrammarKit
