/-
Module: GrammarKit.Proofs.BlankFields
Purpose: Branches up to the fields that hold nothing.  Pruned of such fields at every level, a branch is determined
  by the values that it offers: two branches that offer values in the same fields, pruned alike, are pruned alike.
Main exports: Branch.prune, Branch.Sorted, Offers, Offers.prune_eq
-/
import GrammarKit.Proofs.FieldStore

namespace GrammarKit.Generic

/-! ### Pruning -/

namespace Node

mutual
/-- A node without the fields that hold nothing, at any level. -/
def prune : Node → Node
  | branch fields => branch (pruneBranch fields)
  | leaf s => leaf s
  | mark m => mark m

/-- A field with its values pruned. -/
def pruneField : Field Node → Field Node
  | .one node => .one (prune node)
  | .many nodes => .many (pruneAll nodes)

/-- Several nodes, each pruned. -/
def pruneAll : List Node → List Node
  | [] => []
  | node :: nodes => prune node :: pruneAll nodes

/-- A branch without the fields that hold nothing, at any level. -/
def pruneBranch : Table (Field Node) → Table (Field Node)
  | ⟨fields⟩ => ⟨pruneFields fields⟩

/-- The fields that hold something, pruned. -/
def pruneFields : List (String × Field Node) → List (String × Field Node)
  | [] => []
  | (name, field) :: fields =>
      if field.isBlank then pruneFields fields else (name, pruneField field) :: pruneFields fields
end

theorem pruneAll_eq_map (nodes : List Node) : pruneAll nodes = nodes.map prune := by
  induction nodes with
  | nil => rfl
  | cons node nodes ih => rw [pruneAll, ih, List.map_cons]

/-! ### Order at every level -/

mutual
/-- The fields of every branch in a node stand in ascending order of their names, no name twice. -/
def Sorted : Node → Prop
  | branch fields => SortedBranch fields
  | leaf _ => True
  | mark _ => True

/-- The branches in a field are sorted. -/
def SortedField : Field Node → Prop
  | .one node => Sorted node
  | .many nodes => SortedAll nodes

/-- The branches in several nodes are sorted. -/
def SortedAll : List Node → Prop
  | [] => True
  | node :: nodes => Sorted node ∧ SortedAll nodes

/-- The fields of a branch and of every branch in it are sorted. -/
def SortedBranch : Table (Field Node) → Prop
  | ⟨fields⟩ => Table.Ordered (Table.mk fields) ∧ SortedFields fields

/-- The branches in several fields are sorted. -/
def SortedFields : List (String × Field Node) → Prop
  | [] => True
  | (_, field) :: fields => SortedField field ∧ SortedFields fields
end

theorem sortedAll_iff {nodes : List Node} : SortedAll nodes ↔ ∀ node ∈ nodes, node.Sorted := by
  induction nodes with
  | nil => simp [SortedAll]
  | cons node nodes ih => rw [SortedAll, ih, List.forall_mem_cons]

theorem sortedField_iff {field : Field Node} : SortedField field ↔ ∀ node ∈ field.values, node.Sorted := by
  cases field with
  | one node => simp [SortedField, Field.values]
  | many nodes => exact sortedAll_iff

theorem sortedFields_iff {fields : List (String × Field Node)} :
    SortedFields fields ↔ ∀ entry ∈ fields, SortedField entry.2 := by
  induction fields with
  | nil => simp [SortedFields]
  | cons entry fields ih => rw [SortedFields, ih, List.forall_mem_cons]

end Node

namespace Branch

/-- A branch without the fields that hold nothing, at any level. -/
def prune (b : Branch) : Branch :=
  Node.pruneBranch b

/-- The fields of a branch and of every branch in it stand in ascending order of their names, no name twice, as all
operations on branches keep them. -/
def Sorted (b : Branch) : Prop :=
  Node.SortedBranch b

/-- A field, if it holds something. -/
def offer (b : Branch) (name : String) : Option (Field Node) :=
  (b.get? name).filter fun field => !field.isBlank

variable {b : Branch}

theorem sorted_iff : Sorted b ↔ b.Ordered ∧ ∀ entry ∈ b.entries, ∀ node ∈ entry.2.values, node.Sorted := by
  obtain ⟨fields⟩ := b
  simp only [Sorted, Node.SortedBranch, Node.sortedFields_iff, Node.sortedField_iff]

theorem Sorted.ordered (h : Sorted b) : b.Ordered :=
  (sorted_iff.mp h).1

theorem Sorted.field (h : Sorted b) {name : String} {field : Field Node} (present : b.get? name = some field) :
    ∀ node ∈ field.values, node.Sorted :=
  (sorted_iff.mp h).2 _ (Table.mem_of_lookup present)

theorem Sorted.erase (h : Sorted b) (name : String) : Sorted (b.erase name) := by
  rw [sorted_iff] at h ⊢
  exact ⟨Table.ordered_erase h.1 name, fun entry member => h.2 entry (List.mem_of_mem_filter member)⟩

theorem Sorted.insert (h : Sorted b) (name : String) {field : Field Node}
    (new : ∀ node ∈ field.values, node.Sorted) : Sorted (b.insert name field) := by
  rw [sorted_iff] at h ⊢
  refine ⟨Table.ordered_insert h.1 name field, fun entry member => ?_⟩
  rcases Table.mem_insertEntry member with rfl | old
  · exact new
  · exact h.2 entry old

/-- A value is taken out of a field for one value, which goes with it, or from the front of a list. -/
theorem pull_cases {name : String} {single : Bool} {node : Node} {rest : Branch}
    (pulled : b.pull name single = .ok (node, rest)) :
    single = true ∧ b.get? name = some (.one node) ∧ rest = b.erase name ∨
      ∃ nodes, single = false ∧ b.get? name = some (.many (node :: nodes)) ∧ rest = b.insert name (.many nodes) := by
  unfold Branch.pull at pulled
  split at pulled
  · cases pulled
  · cases pulled
  · next values present =>
    cases single with
    | true => cases pulled
    | false =>
      cases pulled
      exact .inr ⟨values, rfl, present, rfl⟩
  · next present =>
    cases single with
    | true =>
      cases pulled
      exact .inl ⟨rfl, present, rfl⟩
    | false => cases pulled

/-- What is taken out of a sorted branch is sorted, and so is what stays. -/
theorem Sorted.pull (h : Sorted b) {name : String} {single : Bool} {node : Node} {rest : Branch}
    (pulled : b.pull name single = .ok (node, rest)) : node.Sorted ∧ Sorted rest := by
  rcases pull_cases pulled with ⟨-, present, rfl⟩ | ⟨nodes, -, present, rfl⟩
  · exact ⟨h.field present node List.mem_cons_self, h.erase name⟩
  · have here := List.forall_mem_cons.mp (h.field present)
    exact ⟨here.1, h.insert name here.2⟩

/-- The other fields stay as they are. -/
theorem get?_of_pull {name other : String} {single : Bool} {node : Node} {rest : Branch}
    (pulled : b.pull name single = .ok (node, rest)) (different : other ≠ name) :
    rest.get? other = b.get? other := by
  rcases pull_cases pulled with ⟨-, -, rfl⟩ | ⟨nodes, -, -, rfl⟩
  · exact Table.get?_erase_of_ne b different
  · exact Table.get?_insert_of_ne b different _

/-- A used-up branch offers nothing. -/
theorem offer_of_consumed (consumed : b.ensureConsumed = .ok ()) (name : String) : offer b name = none := by
  rw [offer, Option.filter_eq_none_iff]
  intro field present
  unfold Branch.ensureConsumed at consumed
  split at consumed
  · cases consumed
  · next none =>
    have blank := List.find?_eq_none.mp none _ (Table.mem_of_lookup present)
    exact blank

theorem ordered_prune (h : b.Ordered) : (prune b).Ordered := by
  obtain ⟨fields⟩ := b
  suffices names : ((Node.pruneFields fields).map (·.1)).Sublist (fields.map (·.1)) from List.Pairwise.sublist names h
  clear h
  induction fields with
  | nil => exact .slnil
  | cons entry fields ih =>
    rw [Node.pruneFields]
    split
    · exact ih.cons _
    · exact ih.cons_cons _

/-- Pruning leaves of each field what it offers. -/
theorem get?_prune (h : b.Ordered) (name : String) : (prune b).get? name = (offer b name).map Node.pruneField := by
  obtain ⟨fields⟩ := b
  show Table.lookup name (Node.pruneFields fields)
    = ((Table.lookup name fields).filter fun field => !field.isBlank).map Node.pruneField
  induction fields with
  | nil => rfl
  | cons entry fields ih =>
    obtain ⟨other, field⟩ := entry
    have ⟨above, ordered⟩ := List.pairwise_cons.mp h
    rw [Node.pruneFields, Table.lookup]
    by_cases same : other = name
    · have absent : Table.lookup name fields = none := by
        rw [← Option.not_isSome_iff_eq_none, Table.lookup_isSome]
        intro later
        exact String.lt_irrefl name (same ▸ above name later)
      rw [if_pos same]
      cases blank : field.isBlank with
      | true => simp [ih ordered, absent, Option.filter, blank]
      | false => simp [Table.lookup, same, Option.filter, blank]
    · rw [if_neg same, ← ih ordered]
      split
      · rfl
      · rw [Table.lookup, if_neg same]

end Branch

/-! ### What a branch offers -/

/-- A branch holds exactly the given entries, if fields that hold nothing count as none. -/
structure Offers (counters : Counters) (entries : Entries) (b : Branch) : Prop where
  ordered : b.Ordered
  field : ∀ name, FieldHolds (counters.isSingle name) (entries.values name) (b.offer name)

/-- The same entries up to fields that hold nothing. -/
def Copies (entries copies : Entries) : Prop :=
  copies.map (Prod.map id Node.prune) = entries.map (Prod.map id Node.prune)

section Offers

variable {counters : Counters} {entries copies entries' copies' : Entries} {b c : Branch}

theorem Holds.offers (h : Holds counters entries b) : Offers counters entries b := by
  refine ⟨h.ordered, fun name => ?_⟩
  have here := h.field name
  rw [Branch.offer]
  generalize counters.isSingle name = single at here ⊢
  generalize entries.values name = values at here ⊢
  generalize b.get? name = field at here ⊢
  cases here with
  | absent => exact .absent
  | one => exact .one
  | many =>
    cases values with
    | nil => exact .absent
    | cons node nodes => exact .many

/-- Entries that a branch can offer fit into a branch. -/
theorem Offers.fitting (h : Offers counters entries b) : Fitting counters entries := by
  intro name single
  have here := h.field name
  rw [single] at here
  generalize entries.values name = values at here ⊢
  generalize b.offer name = field at here
  cases here with
  | absent => exact Nat.zero_le 1
  | one => exact Nat.le_refl 1

theorem Copies.append (h : Copies entries copies) (h' : Copies entries' copies') :
    Copies (entries ++ entries') (copies ++ copies') := by
  simp only [Copies, List.map_append] at h h' ⊢
  rw [h, h']

theorem values_prune (name : String) (entries : Entries) :
    Entries.values name (entries.map (Prod.map id Node.prune)) = (entries.values name).map Node.prune := by
  simp [Entries.values, List.filter_map, Function.comp_def]

theorem Copies.values (h : Copies entries copies) (name : String) :
    (copies.values name).map Node.prune = (entries.values name).map Node.prune := by
  rw [← values_prune, ← values_prune, h]

theorem Copies.fitting (h : Copies entries copies) (fits : Fitting counters entries) : Fitting counters copies := by
  intro name single
  have same := congrArg List.length (h.values name)
  rw [List.length_map, List.length_map] at same
  rw [same]
  exact fits name single

/-- A field that holds something is decided by its values and whether it is for one of them. -/
theorem FieldHolds.prune_eq {single : Bool} {values copies : List Node} {field field' : Option (Field Node)}
    (h : FieldHolds single values field) (h' : FieldHolds single copies field')
    (same : copies.map Node.prune = values.map Node.prune) (full : ∀ f ∈ field, f.isBlank = false)
    (full' : ∀ f ∈ field', f.isBlank = false) : field'.map Node.pruneField = field.map Node.pruneField := by
  cases h with
  | absent =>
    obtain rfl := List.map_eq_nil_iff.mp same
    cases h' with
    | absent => rfl
    | many => exact absurd (full' _ rfl) (by simp [Field.isBlank])
  | one =>
    cases h' with
    | absent => cases same
    | one =>
      obtain ⟨first, -⟩ := List.cons.inj same
      rw [Option.map_some, Option.map_some, Node.pruneField, Node.pruneField, first]
  | many =>
    cases h' with
    | absent =>
      obtain rfl := List.map_eq_nil_iff.mp same.symm
      exact absurd (full _ rfl) (by simp [Field.isBlank])
    | many =>
      rw [Option.map_some, Option.map_some, Node.pruneField, Node.pruneField, Node.pruneAll_eq_map,
        Node.pruneAll_eq_map, same]

/-- Branches that offer the same up to fields that hold nothing are the same up to such fields. -/
theorem Offers.prune_eq (h : Offers counters entries b) (h' : Offers counters copies c)
    (same : Copies entries copies) : c.prune = b.prune := by
  apply Table.Ordered.ext (Branch.ordered_prune h'.ordered) (Branch.ordered_prune h.ordered)
  intro name
  have full : ∀ b : Branch, ∀ f ∈ b.offer name, f.isBlank = false := by
    intro b f offered
    have kept := (Option.mem_filter_iff.mp offered).2
    exact (Bool.not_eq_true' _).mp kept
  rw [Branch.get?_prune h'.ordered, Branch.get?_prune h.ordered]
  exact (h.field name).prune_eq (h'.field name) (same.values name) (full b) (full c)

end Offers
end GrammarKit.Generic
