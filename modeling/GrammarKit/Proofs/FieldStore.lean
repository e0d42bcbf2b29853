/-
Module: GrammarKit.Proofs.FieldStore
Purpose: Branches as stores of values.  Values are added to fields one after the other and taken out in the
  same order, field by field; what a branch holds is therefore the list of values that were added and not
  yet taken.
Main exports: Holds, Holds.add, Holds.pull, Puts, Transfer, Transfer.bind
-/
import GrammarKit.Generic.ToTree
import GrammarKit.Proofs.FieldCounts
import GrammarKit.Proofs.Results

namespace GrammarKit.Generic

/-- Values with the fields that they belong to, in the order in which they are added. -/
abbrev Entries := List (String × Node)

/-- The values of a field. -/
def Entries.values (field : String) (entries : Entries) : List Node :=
  (entries.filter (·.1 = field)).map (·.2)

namespace Entries

@[simp] theorem values_nil (field : String) : values field [] = [] := rfl

@[simp] theorem values_cons_self (field : String) (node : Node) (entries : Entries) :
    values field ((field, node) :: entries) = node :: values field entries := by
  simp [values]

theorem values_cons_of_ne {field name : String} (h : field ≠ name) (node : Node) (entries : Entries) :
    values field ((name, node) :: entries) = values field entries := by
  simp [values, Ne.symm h]

@[simp] theorem values_append (field : String) (first second : Entries) :
    values field (first ++ second) = values field first ++ values field second := by
  simp [values]

theorem mem_values {field : String} {node : Node} {entries : Entries} :
    node ∈ values field entries ↔ (field, node) ∈ entries := by
  simp [values]

end Entries

/-! ### What a branch holds -/

/-- A field holds some values: a single one as such, and others as a list, which is there even if it is
empty or else not at all. -/
inductive FieldHolds : Bool → List Node → Option (Field Node) → Prop
  | absent {single} : FieldHolds single [] none
  | one {node} : FieldHolds true [node] (some (.one node))
  | many {nodes} : FieldHolds false nodes (some (.many nodes))

/-- A branch holds exactly the given entries. -/
structure Holds (counters : Counters) (entries : Entries) (b : Branch) : Prop where
  ordered : b.Ordered
  field : ∀ name, FieldHolds (counters.isSingle name) (entries.values name) (b.get? name)

/-- Entries that fit into a branch: no field for one value gets two. -/
def Fitting (counters : Counters) (entries : Entries) : Prop :=
  ∀ name, counters.isSingle name = true → (entries.values name).length ≤ 1

theorem Fitting.left {counters : Counters} {first second : Entries}
    (h : Fitting counters (first ++ second)) : Fitting counters first := by
  intro name single
  have := h name single
  rw [Entries.values_append, List.length_append] at this
  omega

theorem depth_le_depthAll : ∀ {node : Node} {nodes : List Node}, node ∈ nodes →
    node.depth ≤ Node.depthAll nodes
  | _, _ :: _, .head _ => Nat.le_max_left _ _
  | _, _ :: _, .tail _ member => Nat.le_trans (depth_le_depthAll member) (Nat.le_max_right _ _)

theorem depth_le_depthField {node : Node} {field : Field Node} (h : node ∈ field.values) :
    node.depth ≤ Node.depthField field := by
  cases field with
  | one value => exact Nat.le_of_eq (congrArg Node.depth (List.mem_singleton.mp h))
  | many values => exact depth_le_depthAll h

theorem depthField_le_depthFields {name : String} {field : Field Node} :
    ∀ {fields : List (String × Field Node)}, (name, field) ∈ fields →
      Node.depthField field ≤ Node.depthFields fields
  | _ :: _, .head _ => Nat.le_max_left _ _
  | _ :: _, .tail _ member => Nat.le_trans (depthField_le_depthFields member) (Nat.le_max_right _ _)

theorem depthField_lt {b : Branch} {name : String} {field : Field Node} (present : b.get? name = some field) :
    Node.depthField field < b.depth := by
  obtain ⟨fields⟩ := b
  exact Nat.succ_le_succ (depthField_le_depthFields (Table.mem_of_lookup present))

/-- The values in a branch are less deep than the branch. -/
theorem depth_lt_of_value {b : Branch} {name : String} {field : Field Node} {node : Node}
    (present : b.get? name = some field) (value : node ∈ field.values) : node.depth < b.depth :=
  Nat.lt_of_le_of_lt (depth_le_depthField value) (depthField_lt present)

theorem depthFields_filter (kept : String × Field Node → Bool) (fields : List (String × Field Node)) :
    Node.depthFields (fields.filter kept) ≤ Node.depthFields fields := by
  induction fields with
  | nil => exact Nat.le_refl _
  | cons field fields ih =>
    rw [List.filter_cons]
    split
    · obtain ⟨name, field⟩ := field
      simp only [Node.depthFields]
      omega
    · exact Nat.le_trans ih (Nat.le_max_right _ _)

/-- A branch does not get deeper when a field is taken out. -/
theorem depth_erase_le (b : Branch) (name : String) : Branch.depth (b.erase name) ≤ b.depth := by
  obtain ⟨fields⟩ := b
  exact Nat.succ_le_succ (depthFields_filter _ fields)

theorem depthFields_insertEntry {name : String} {field : Field Node} {depth : Nat}
    (low : Node.depthField field ≤ depth) :
    ∀ {fields : List (String × Field Node)}, Node.depthFields fields ≤ depth →
      Node.depthFields (Table.insertEntry name field fields) ≤ depth
  | [], _ => Nat.max_le.mpr ⟨low, Nat.zero_le _⟩
  | (_, _) :: fields, lower => by
    obtain ⟨first, others⟩ := Nat.max_le.mp lower
    rw [Table.insertEntry]
    split
    · exact Nat.max_le.mpr ⟨low, others⟩
    · split
      · exact Nat.max_le.mpr ⟨low, lower⟩
      · exact Nat.max_le.mpr ⟨first, depthFields_insertEntry low others⟩

/-- A branch does not get deeper when the first value of a list is taken out. -/
theorem depth_insert_le {b : Branch} {name : String} {node : Node} {nodes : List Node}
    (present : b.get? name = some (.many (node :: nodes))) : Branch.depth (b.insert name (.many nodes)) ≤ b.depth := by
  have whole : max node.depth (Node.depthAll nodes) < b.depth := depthField_lt present
  obtain ⟨fields⟩ := b
  have low : Node.depthAll nodes ≤ Node.depthFields fields :=
    Nat.le_trans (Nat.le_max_right _ _) (Nat.le_of_lt_succ whole)
  exact Nat.succ_le_succ (depthFields_insertEntry low (Nat.le_refl _))

namespace Holds

variable {counters : Counters} {entries : Entries} {b : Branch} {name : String} {node : Node}

/-- Adding a value that fits puts it behind those of its field. -/
theorem add (h : Holds counters entries b) (fits : Fitting counters (entries ++ [(name, node)])) :
    ∃ b', b.add name node (counters.isSingle name) = .ok b' ∧
      Holds counters (entries ++ [(name, node)]) b' ∧
      ∀ other, other ≠ name → b'.get? other = b.get? other := by
  have others : ∀ {other : String} (field : Field Node), other ≠ name →
      FieldHolds (counters.isSingle other) ((entries ++ [(name, node)]).values other)
        ((b.insert name field).get? other) := by
    intro other field ne
    rw [Entries.values_append, Entries.values_cons_of_ne ne, Entries.values_nil, List.append_nil,
      Table.get?_insert_of_ne _ ne]
    exact h.field other
  have here := h.field name
  have room := fits name
  rw [Entries.values_append, Entries.values_cons_self, Entries.values_nil] at room
  unfold Branch.add
  generalize held : entries.values name = values at here room
  generalize b.get? name = present at here
  generalize kind : counters.isSingle name = single at here room
  cases here with
  | absent =>
    refine ⟨_, rfl, ⟨Table.ordered_insert h.ordered _ _, fun other => ?_⟩,
      fun other ne => Table.get?_insert_of_ne b ne _⟩
    by_cases same : other = name
    · subst same
      rw [Entries.values_append, held, Table.get?_insert_self, kind, Entries.values_cons_self]
      cases single
      · exact .many
      · exact .one
    · exact others _ same
  | one => exact absurd (room rfl) (by simp)
  | many =>
    refine ⟨_, rfl, ⟨Table.ordered_insert h.ordered _ _, fun other => ?_⟩,
      fun other ne => Table.get?_insert_of_ne b ne _⟩
    by_cases same : other = name
    · subst same
      rw [Entries.values_append, held, Table.get?_insert_self, kind, Entries.values_cons_self]
      exact .many
    · exact others _ same

/-- Taking a value out of a field takes the first one. -/
theorem pull (h : Holds counters ((name, node) :: entries) b) :
    ∃ b', b.pull name (counters.isSingle name) = .ok (node, b') ∧ Holds counters entries b' := by
  have here := h.field name
  rw [Entries.values_cons_self] at here
  unfold Branch.pull
  generalize held : entries.values name = values at here
  generalize b.get? name = present at here
  generalize kind : counters.isSingle name = single at here
  cases here with
  | one =>
    refine ⟨_, rfl, Table.ordered_erase h.ordered _, fun other => ?_⟩
    by_cases same : other = name
    · subst same
      rw [held, Table.get?_erase_self]
      exact .absent
    · have := h.field other
      rwa [Entries.values_cons_of_ne same, ← Table.get?_erase_of_ne b same] at this
  | many =>
    refine ⟨_, rfl, Table.ordered_insert h.ordered _ _, fun other => ?_⟩
    by_cases same : other = name
    · subst same
      rw [held, Table.get?_insert_self, kind]
      exact .many
    · have := h.field other
      rwa [Entries.values_cons_of_ne same, ← Table.get?_insert_of_ne b same (.many values)] at this

/-- A branch from which all entries have been taken is used up. -/
theorem ensureConsumed (h : Holds counters [] b) : b.ensureConsumed = .ok () := by
  unfold Branch.ensureConsumed
  split
  · next name field found =>
    exfalso
    have member := List.mem_of_find?_eq_some found
    have full := List.find?_some found
    have here := h.field name
    rw [h.ordered.get?_of_mem member, Entries.values_nil] at here
    generalize counters.isSingle name = single at here
    cases here
    simp [Field.isBlank] at full
  · rfl

/-- An empty branch holds nothing. -/
theorem empty (ordered : counters.Ordered) : Holds counters [] counters.emptyBranch := by
  have names : counters.emptyBranch.names.Sublist counters.names := by
    unfold Counters.emptyBranch Counters.listFields Table.names
    rw [List.map_map, List.map_map]
    exact List.filter_sublist.map _
  refine ⟨ordered.sublist names, fun name => ?_⟩
  cases present : counters.emptyBranch.get? name with
  | none => exact .absent
  | some field =>
    have member := Table.mem_of_lookup present
    obtain ⟨other, listed, same⟩ := List.mem_map.mp member
    obtain ⟨rfl, rfl⟩ := Prod.mk.inj same
    obtain ⟨⟨other, c⟩, kept, rfl⟩ := List.mem_map.mp listed
    obtain ⟨inside, several⟩ := List.mem_filter.mp kept
    have kind : counters.isSingle other = false := by
      rw [Counters.isSingle, Counters.of, ordered.get?_of_mem inside]
      simpa using several
    rw [kind]
    exact .many

/-- What a branch holds is less deep than the branch. -/
theorem depth_lt (h : Holds counters entries b) (member : (name, node) ∈ entries) :
    node.depth < b.depth := by
  have here := h.field name
  have inside := Entries.mem_values.mpr member
  generalize entries.values name = values at here inside
  generalize present : b.get? name = held at here
  generalize counters.isSingle name = single at here
  cases here with
  | absent => cases inside
  | one => exact depth_lt_of_value present inside
  | many => exact depth_lt_of_value present inside

end Holds

/-! ### Transfers -/

/-- A way to add some entries to a branch in which they fit.  Fields without new entries stay as they were. -/
def Puts (counters : Counters) (write : Branch → Except Error Branch) (entries : Entries) : Prop :=
  ∀ ⦃before b⦄, Holds counters before b → Fitting counters (before ++ entries) →
    ∃ b', write b = .ok b' ∧ Holds counters (before ++ entries) b' ∧
      ∀ name, entries.values name = [] → b'.get? name = b.get? name

theorem Puts.done (counters : Counters) : Puts counters .ok [] := by
  intro before b holds _
  refine ⟨b, rfl, ?_, fun _ _ => rfl⟩
  rwa [List.append_nil]

/-- Some entries after others. -/
theorem Puts.bind {counters : Counters} {write write' : Branch → Except Error Branch} {entries entries' : Entries}
    (h : Puts counters write entries) (h' : Puts counters write' entries') :
    Puts counters (fun b => write b >>= write') (entries ++ entries') := by
  intro before b holds fits
  rw [← List.append_assoc] at fits ⊢
  obtain ⟨b₁, first, holds, frame⟩ := h holds fits.left
  obtain ⟨b₂, second, holds, frame'⟩ := h' holds fits
  refine ⟨b₂, by simp only [first]; exact second, holds, fun name none => ?_⟩
  rw [Entries.values_append, List.append_eq_nil_iff] at none
  rw [frame' name none.2, frame name none.1]

theorem Puts.congr {counters : Counters} {write write' : Branch → Except Error Branch} {entries : Entries}
    (h : Puts counters write entries) (same : ∀ b, write' b = write b) : Puts counters write' entries := by
  rwa [show write' = write from funext same]

/-- A way to add some entries to a branch, and a way to take them out again that makes a value of them, where
`depth` bounds the branches that can be gone into on the way back. -/
structure Transfer {α : Type} (counters : Counters) (depth : Nat) (write : Branch → Except Error Branch)
    (read : Branch → Except Error (α × Branch)) (entries : Entries) (value : α) : Prop where
  write : Puts counters write entries
  read : (∀ entry ∈ entries, entry.2.depth ≤ depth) →
    ∀ {after b}, Holds counters (entries ++ after) b →
      ∃ b', read b = .ok (value, b') ∧ Holds counters after b'

namespace Transfer

variable {α β : Type} {counters : Counters} {depth : Nat}

/-- Nothing to transfer. -/
theorem done (value : α) : Transfer counters depth .ok (fun b => .ok (value, b)) [] value := by
  refine ⟨Puts.done counters, fun _ {_ b} holds => ⟨b, rfl, holds⟩⟩

/-- One transfer after the other; the values are combined in the end. -/
theorem bind {write write' : Branch → Except Error Branch} {read : Branch → Except Error (α × Branch)}
    {read' : α → Branch → Except Error (β × Branch)} {entries entries' : Entries} {value : α} {value' : β}
    (h : Transfer counters depth write read entries value)
    (h' : Transfer counters depth write' (read' value) entries' value') :
    Transfer counters depth (fun b => write b >>= write')
      (fun b => read b >>= fun (value, b) => read' value b) (entries ++ entries') value' := by
  refine ⟨Puts.bind h.write h'.write, fun small {after b} holds => ?_⟩
  rw [List.append_assoc] at holds
  obtain ⟨b₁, first, holds⟩ := h.read (fun entry member => small entry (by simp [member])) holds
  obtain ⟨b₂, second, holds⟩ := h'.read (fun entry member => small entry (by simp [member])) holds
  exact ⟨b₂, by rw [first]; exact second, holds⟩

/-- The value of a transfer made into another one. -/
theorem map {write : Branch → Except Error Branch} {read : Branch → Except Error (α × Branch)}
    {entries : Entries} {value : α} (h : Transfer counters depth write read entries value) (f : α → β) :
    Transfer counters depth write (fun b => read b >>= fun (value, b) => .ok (f value, b)) entries
      (f value) := by
  refine ⟨h.write, fun small {after b} holds => ?_⟩
  obtain ⟨b', found, holds⟩ := h.read small holds
  exact ⟨b', by rw [found]; rfl, holds⟩

theorem congr {write write' : Branch → Except Error Branch}
    {read read' : Branch → Except Error (α × Branch)} {entries : Entries} {value : α}
    (h : Transfer counters depth write read entries value) (sameWrite : ∀ b, write' b = write b)
    (sameRead : ∀ b, read' b = read b) : Transfer counters depth write' read' entries value := by
  rwa [show write' = write from funext sameWrite, show read' = read from funext sameRead]

/-! ### Single entries -/

/-- One value in a field. -/
theorem entry (counters : Counters) (depth : Nat) (name : String) (node : Node) :
    Transfer counters depth (fun b => lift (b.add name node (counters.isSingle name)))
      (fun b => lift (b.pull name (counters.isSingle name))) [(name, node)] node := by
  refine ⟨fun {before b} holds fits => ?_, fun _ {after b} holds => ?_⟩
  · obtain ⟨b', added, holds, frame⟩ := holds.add fits
    refine ⟨b', by rw [added]; rfl, holds, fun other none => frame other ?_⟩
    rintro rfl
    simp at none
  · obtain ⟨b', pulled, holds⟩ := holds.pull
    exact ⟨b', by rw [pulled]; rfl, holds⟩

theorem leaf (counters : Counters) (depth : Nat) (name : String) (t : Term) (s : Slice) :
    Transfer counters depth (fun b => addLeaf counters name t b (.leaf s)) (pullLeaf counters name)
      [(name, .leaf s)] (Tree.leaf s) := by
  have single := entry counters depth name (.leaf s)
  refine ⟨single.write, fun small {after b} holds => ?_⟩
  obtain ⟨b', pulled, holds⟩ := single.read small holds
  exact ⟨b', by rw [pullLeaf, pulled]; rfl, holds⟩

theorem branch (counters : Counters) (depth : Nat) (name : String) (child : Branch) :
    Transfer counters depth (fun b => lift (b.add name (.branch child) (counters.isSingle name)))
      (pullBranch counters name) [(name, .branch child)] child := by
  have single := entry counters depth name (.branch child)
  refine ⟨single.write, fun small {after b} holds => ?_⟩
  obtain ⟨b', pulled, holds⟩ := single.read small holds
  exact ⟨b', by rw [pullBranch, pulled]; rfl, holds⟩

/-- A bookkeeping entry, in a field that is known to hold a list. -/
theorem mark (depth : Nat) {name : String} (several : counters.isSingle name = false) (m : Mark) :
    Transfer counters depth (addMark name m) (pullMark name) [(name, .mark m)] m := by
  have single := entry counters depth name (.mark m)
  rw [several] at single
  refine ⟨single.write, fun small {after b} holds => ?_⟩
  obtain ⟨b', pulled, holds⟩ := single.read small holds
  exact ⟨b', by rw [pullMark, pulled]; rfl, holds⟩

end Transfer
end GrammarKit.Generic
