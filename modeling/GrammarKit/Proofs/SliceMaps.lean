/-
Module: GrammarKit.Proofs.SliceMaps
Purpose: Trees and generic trees with other slices at their leaves.  Passing all slices through a function keeps
  whatever walks go by: tags, extras and the shapes of lists, and the names and kinds of fields.  Trees are equal up to
  a comparison of their leaves exactly if they become the same tree when every slice is reduced to what is compared.
Main exports: Tree.mapSlices, Generic.Branch.mapSlices, Tree.slots?_mapSlices, Tree.ofSlots_mapSlices,
  Tree.contentEq_iff, Generic.Branch.contentEq_iff
-/
import GrammarKit.Generic.Cardinality
import GrammarKit.Proofs.ListSlots
import GrammarKit.Proofs.Tables

namespace GrammarKit

/-- A slice reduced to the characters in view. -/
def Slice.bare (s : Slice) : Slice :=
  ⟨⟨0, "", none⟩, 0, s.chars⟩

theorem Slice.chars_bare (s : Slice) : s.bare.chars = s.chars :=
  rfl

theorem Slice.bare_eq_iff {s s' : Slice} : s.bare = s'.bare ↔ s.chars = s'.chars := by
  simp [bare]

namespace Tree

/-! ### Trees -/

section MapSlices

variable (f : Slice → Slice)

mutual
/-- A tree with every slice passed through a function. -/
def mapSlices : Tree → Tree
  | leaf s => leaf (f s)
  | node tag extra children => node tag extra (mapSlicesAll children)
  | elided => elided

/-- Several trees with every slice passed through a function. -/
def mapSlicesAll : List Tree → List Tree
  | [] => []
  | t :: ts => mapSlices t :: mapSlicesAll ts
end

@[simp] theorem mapSlicesAll_eq_map (ts : List Tree) : mapSlicesAll f ts = ts.map (mapSlices f) := by
  induction ts with
  | nil => rfl
  | cons t ts ih => rw [mapSlicesAll, ih, List.map_cons]

@[simp] theorem mapSlices_leaf (s : Slice) : (leaf s).mapSlices f = leaf (f s) := by
  rw [mapSlices]

@[simp] theorem mapSlices_node (tag : String) (extra : Option Extra) (children : List Tree) :
    (node tag extra children).mapSlices f = node tag extra (children.map (mapSlices f)) := by
  rw [mapSlices, mapSlicesAll_eq_map]

@[simp] theorem mapSlices_elided : elided.mapSlices f = elided := by
  rw [mapSlices]

mutual
/-- Slices can be passed through one function after the other, or at once. -/
theorem mapSlices_mapSlices (f' : Slice → Slice) : ∀ t : Tree,
    (t.mapSlices f).mapSlices f' = t.mapSlices fun s => f' (f s)
  | leaf _ => by simp only [mapSlices_leaf]
  | node _ _ children => by
    rw [mapSlices, mapSlices, mapSlices, mapSlicesAll_mapSlicesAll f' children]
  | elided => by simp only [mapSlices_elided]

theorem mapSlicesAll_mapSlicesAll (f' : Slice → Slice) : ∀ ts : List Tree,
    mapSlicesAll f' (mapSlicesAll f ts) = mapSlicesAll (fun s => f' (f s)) ts
  | [] => rfl
  | t :: ts => by
    rw [mapSlicesAll, mapSlicesAll, mapSlicesAll, mapSlices_mapSlices f' t, mapSlicesAll_mapSlicesAll f' ts]
end

@[simp] theorem mapSlices_eq_elided {t : Tree} : t.mapSlices f = elided ↔ t = elided := by
  cases t <;> simp

@[simp] theorem choice?_mapSlices (t : Tree) : (t.mapSlices f).choice? = t.choice? := by
  cases t with
  | leaf s => simp [choice?]
  | node tag extra children =>
    rw [mapSlices_node]
    rcases extra with _ | ⟨_ | _⟩ <;> rfl
  | elided => simp

mutual
theorem leaves_mapSlices : ∀ t : Tree, (t.mapSlices f).leaves = t.leaves.map f
  | leaf _ => by simp [leaves]
  | node _ _ children => by
    rw [mapSlices_node, leaves, leaves]
    exact leavesAll_mapSlices children
  | elided => by simp [leaves]

theorem leavesAll_mapSlices : ∀ ts : List Tree, leavesAll (ts.map (mapSlices f)) = (leavesAll ts).map f
  | [] => rfl
  | t :: ts => by
    rw [List.map_cons, leavesAll, leavesAll, leaves_mapSlices t, leavesAll_mapSlices ts, List.map_append]
end

mutual
@[simp] theorem depth_mapSlices : ∀ t : Tree, (t.mapSlices f).depth = t.depth
  | leaf _ => by simp [depth]
  | node _ _ children => by
    rw [mapSlices_node, depth, depth, depthAll_mapSlices children]
  | elided => by simp

theorem depthAll_mapSlices : ∀ ts : List Tree, depthAll (ts.map (mapSlices f)) = depthAll ts
  | [] => rfl
  | t :: ts => by
    rw [List.map_cons, depthAll, depthAll, depth_mapSlices t, depthAll_mapSlices ts]
end

/-! ### Lists -/

theorem isInnerGroup_mapSlices (tag : String) (shape : ListShape) (t : Tree) :
    isInnerGroup tag shape (t.mapSlices f) = isInnerGroup tag shape t := by
  cases t with
  | leaf s => simp [isInnerGroup]
  | node tag' extra children =>
    rw [mapSlices_node]
    rcases extra with _ | ⟨_ | _⟩ <;> rfl
  | elided => simp

/-- Taking the slots out of a list goes by its shape alone. -/
theorem slots?_mapSlices : ∀ t : Tree, slots? (t.mapSlices f) = (slots? t).map (List.map (mapSlices f))
  | leaf s => by simp [slots?]
  | elided => by simp [slots?]
  | node tag none children => by simp [slots?]
  | node tag (some (.choice index)) children => by simp [slots?]
  | node tag (some (.list shape)) children => by
    rw [mapSlices_node, slots?.eq_def, slots?.eq_def (node tag _ children)]
    by_cases single : shape.assoc = .flat ∨ shape.terms < 3
    · simp only [if_pos single, Option.map_some]
    · simp only [if_neg single]
      rcases children with _ | ⟨first, _ | ⟨separator, _ | ⟨last, _ | ⟨other, others⟩⟩⟩⟩
      · rfl
      · rfl
      · rfl
      · have inFirst := slots?_mapSlices first
        have inLast := slots?_mapSlices last
        simp only [List.map_cons, List.map_nil, isInnerGroup_mapSlices, inFirst, inLast]
        split <;> split <;> simp [Function.comp_def]
      · rfl
termination_by t => sizeOf t

theorem foldLeft_mapSlices (tag : String) (group : Tree) (terms : Nat) : ∀ slots : List Tree,
    (foldLeft tag group terms slots).mapSlices f = foldLeft tag (group.mapSlices f) terms (slots.map (mapSlices f))
  | [] => rfl
  | [_] => rfl
  | separator :: element :: slots => by
    rw [foldLeft, foldLeft_mapSlices tag _ _ slots, mapSlices_node]
    rfl

theorem foldRight_mapSlices (tag : String) (group : Tree) (terms : Nat) : ∀ slots : List Tree,
    (foldRight tag group terms slots).mapSlices f = foldRight tag (group.mapSlices f) terms (slots.map (mapSlices f))
  | [] => rfl
  | [_] => rfl
  | separator :: element :: slots => by
    rw [foldRight, foldRight_mapSlices tag _ _ slots, mapSlices_node]
    rfl

theorem headD_mapSlices (slots : List Tree) :
    (slots.map (mapSlices f)).headD elided = (slots.headD elided).mapSlices f := by
  cases slots with
  | nil => exact (mapSlices_elided f).symm
  | cons slot slots => rfl

theorem getLastD_mapSlices (slots : List Tree) :
    (slots.map (mapSlices f)).getLastD elided = (slots.getLastD elided).mapSlices f := by
  rw [List.getLastD_eq_getLast?, List.getLast?_map, List.getLastD_eq_getLast?]
  cases slots.getLast? with
  | none => exact (mapSlices_elided f).symm
  | some slot => rfl

/-- So does folding slots into a list. -/
theorem ofSlots_mapSlices (tag : String) (assoc : Assoc) (slots : List Tree) :
    (ofSlots tag assoc slots).mapSlices f = ofSlots tag assoc (slots.map (mapSlices f)) := by
  simp only [ofSlots, List.length_map]
  split
  · exact mapSlices_node f _ _ _
  · cases assoc with
    | flat => exact mapSlices_node f _ _ _
    | leftToRight =>
      simp only
      rw [foldLeft_mapSlices, headD_mapSlices, List.map_tail]
    | rightToLeft =>
      simp only
      rw [foldRight_mapSlices, getLastD_mapSlices, ← List.map_reverse, List.map_tail]

end MapSlices

/-! ### Equality up to leaves -/

section EqualUpTo

variable {f : Slice → Slice} {same : Slice → Slice → Bool}

mutual
/-- Trees are equal up to their leaves just if they become the same when the leaves are reduced to what is
compared. -/
theorem equalUpTo_iff (compares : ∀ s s', same s s' = true ↔ f s = f s') : ∀ t t' : Tree,
    equalUpTo same t t' = true ↔ t.mapSlices f = t'.mapSlices f
  | leaf s, t' => by cases t' <;> simp [equalUpTo, compares]
  | node _ _ children, t' => by cases t' <;> simp [equalUpTo, equalUpToAll_iff compares children, and_assoc]
  | elided, t' => by cases t' <;> simp [equalUpTo]

theorem equalUpToAll_iff (compares : ∀ s s', same s s' = true ↔ f s = f s') : ∀ ts ts' : List Tree,
    equalUpToAll same ts ts' = true ↔ ts.map (mapSlices f) = ts'.map (mapSlices f)
  | [], ts' => by cases ts' <;> simp [equalUpToAll]
  | t :: ts, ts' => by cases ts' <;> simp [equalUpToAll, equalUpTo_iff compares t, equalUpToAll_iff compares ts]
end

end EqualUpTo

/-- Trees have equal contents just if they are the same once their slices are reduced to their characters. -/
theorem contentEq_iff {t t' : Tree} : t.contentEq t' = true ↔ t.mapSlices Slice.bare = t'.mapSlices Slice.bare :=
  equalUpTo_iff (fun s s' => beq_iff_eq.trans (@Slice.bare_eq_iff s s').symm) t t'

end Tree

namespace Generic

/-! ### Generic trees -/

namespace Node

section MapSlices

variable (f : Slice → Slice)

mutual
/-- A node with every slice passed through a function. -/
def mapSlices : Node → Node
  | branch fields => branch (mapSlicesBranch fields)
  | leaf s => leaf (f s)
  | mark m => mark m

/-- A field with every slice passed through a function. -/
def mapSlicesField : Field Node → Field Node
  | .one node => .one (mapSlices node)
  | .many nodes => .many (mapSlicesAll nodes)

/-- Several nodes with every slice passed through a function. -/
def mapSlicesAll : List Node → List Node
  | [] => []
  | node :: nodes => mapSlices node :: mapSlicesAll nodes

/-- A branch with every slice passed through a function. -/
def mapSlicesBranch : Table (Field Node) → Table (Field Node)
  | ⟨fields⟩ => ⟨mapSlicesFields fields⟩

/-- Several fields with every slice passed through a function. -/
def mapSlicesFields : List (String × Field Node) → List (String × Field Node)
  | [] => []
  | (name, field) :: fields => (name, mapSlicesField field) :: mapSlicesFields fields
end

@[simp] theorem mapSlicesAll_eq_map (nodes : List Node) : mapSlicesAll f nodes = nodes.map (mapSlices f) := by
  induction nodes with
  | nil => rfl
  | cons node nodes ih => rw [mapSlicesAll, ih, List.map_cons]

@[simp] theorem mapSlicesFields_eq_map (fields : List (String × Field Node)) :
    mapSlicesFields f fields = fields.map fun entry => (entry.1, mapSlicesField f entry.2) := by
  induction fields with
  | nil => rfl
  | cons entry fields ih => rw [mapSlicesFields, ih, List.map_cons]

@[simp] theorem isBlank_mapSlicesField (field : Field Node) : (mapSlicesField f field).isBlank = field.isBlank := by
  cases field with
  | one node => rfl
  | many nodes => cases nodes <;> rfl

mutual
theorem depth_mapSlices : ∀ node : Node, (mapSlices f node).depth = node.depth
  | branch ⟨fields⟩ => congrArg (· + 1) (depthFields_mapSlices fields)
  | leaf _ => rfl
  | mark _ => rfl

theorem depthField_mapSlices : ∀ field : Field Node, depthField (mapSlicesField f field) = depthField field
  | .one node => depth_mapSlices node
  | .many nodes => depthAll_mapSlices nodes

theorem depthAll_mapSlices : ∀ nodes : List Node, depthAll (mapSlicesAll f nodes) = depthAll nodes
  | [] => rfl
  | node :: nodes => congrArg₂ max (depth_mapSlices node) (depthAll_mapSlices nodes)

theorem depthFields_mapSlices : ∀ fields : List (String × Field Node),
    depthFields (mapSlicesFields f fields) = depthFields fields
  | [] => rfl
  | (_, field) :: fields => congrArg₂ max (depthField_mapSlices field) (depthFields_mapSlices fields)
end

end MapSlices

section EqualUpTo

variable {f : Slice → Slice} {same : Slice → Slice → Bool}

mutual
/-- Nodes are equal up to their leaves just if they become the same when the leaves are reduced to what is
compared. -/
theorem equalUpTo_iff (compares : ∀ s s', same s s' = true ↔ f s = f s') : ∀ node node' : Node,
    equalUpTo same node node' = true ↔ node.mapSlices f = node'.mapSlices f
  | branch ⟨fields⟩, node' => by
    cases node' <;> simp [equalUpTo, mapSlices, equalUpToBranch_iff compares ⟨fields⟩]
  | leaf s, node' => by cases node' <;> simp [equalUpTo, mapSlices, compares]
  | mark m, node' => by cases node' <;> simp [equalUpTo, mapSlices]

theorem equalUpToField_iff (compares : ∀ s s', same s s' = true ↔ f s = f s') : ∀ field field' : Field Node,
    equalUpToField same field field' = true ↔ mapSlicesField f field = mapSlicesField f field'
  | .one node, field' => by cases field' <;> simp [equalUpToField, mapSlicesField, equalUpTo_iff compares node]
  | .many nodes, field' => by cases field' <;> simp [equalUpToField, mapSlicesField, equalUpToAll_iff compares nodes]

theorem equalUpToAll_iff (compares : ∀ s s', same s s' = true ↔ f s = f s') : ∀ nodes nodes' : List Node,
    equalUpToAll same nodes nodes' = true ↔ nodes.map (mapSlices f) = nodes'.map (mapSlices f)
  | [], nodes' => by cases nodes' <;> simp [equalUpToAll]
  | node :: nodes, nodes' => by
    cases nodes' <;> simp [equalUpToAll, equalUpTo_iff compares node, equalUpToAll_iff compares nodes]

theorem equalUpToBranch_iff (compares : ∀ s s', same s s' = true ↔ f s = f s') : ∀ b b' : Table (Field Node),
    equalUpToBranch same b b' = true ↔ mapSlicesBranch f b = mapSlicesBranch f b'
  | ⟨fields⟩, ⟨fields'⟩ => by simp [equalUpToBranch, mapSlicesBranch, equalUpToFields_iff compares fields]

theorem equalUpToFields_iff (compares : ∀ s s', same s s' = true ↔ f s = f s') :
    ∀ fields fields' : List (String × Field Node), equalUpToFields same fields fields' = true ↔
      (fields.map fun entry => (entry.1, mapSlicesField f entry.2))
        = fields'.map fun entry => (entry.1, mapSlicesField f entry.2)
  | [], fields' => by cases fields' <;> simp [equalUpToFields]
  | (name, field) :: fields, fields' => by
    cases fields' <;>
      simp [equalUpToFields, equalUpToField_iff compares field, equalUpToFields_iff compares fields]
end

end EqualUpTo
end Node

namespace Branch

/-- A branch with every slice passed through a function. -/
def mapSlices (f : Slice → Slice) (b : Branch) : Branch :=
  Node.mapSlicesBranch f b

section MapSlices

variable (f : Slice → Slice) (b : Branch)

theorem entries_mapSlices :
    (b.mapSlices f).entries = b.entries.map fun entry => (entry.1, Node.mapSlicesField f entry.2) := by
  obtain ⟨fields⟩ := b
  exact Node.mapSlicesFields_eq_map f fields

theorem get?_mapSlices (name : String) :
    (b.mapSlices f).get? name = (b.get? name).map (Node.mapSlicesField f) := by
  rw [Table.get?, entries_mapSlices, Table.lookup_mapValues, Table.get?]

theorem insert_mapSlices (name : String) (field : Field Node) :
    mapSlices f (b.insert name field) = (b.mapSlices f).insert name (Node.mapSlicesField f field) := by
  apply congrArg Table.mk
  show Node.mapSlicesFields f (Table.insertEntry name field b.entries) = _
  rw [Node.mapSlicesFields_eq_map, entries_mapSlices, Table.insertEntry_mapValues]

theorem erase_mapSlices (name : String) : mapSlices f (b.erase name) = (b.mapSlices f).erase name := by
  apply congrArg Table.mk
  show Node.mapSlicesFields f (b.entries.filter (·.1 ≠ name)) = _
  rw [Node.mapSlicesFields_eq_map, entries_mapSlices, List.filter_map]
  rfl

theorem depth_mapSlices : (b.mapSlices f).depth = b.depth := by
  obtain ⟨fields⟩ := b
  exact congrArg (· + 1) (Node.depthFields_mapSlices f fields)

/-- The fields that hold lists are there from the beginning, without slices. -/
theorem emptyBranch_mapSlices (counters : Counters) :
    mapSlices f counters.emptyBranch = counters.emptyBranch := by
  apply congrArg Table.mk
  show Node.mapSlicesFields f (counters.listFields.map (·, .many [])) = _
  rw [Node.mapSlicesFields_eq_map, List.map_map]
  rfl

end MapSlices

/-- Branches have equal contents just if they are the same once their slices are reduced to their characters. -/
theorem contentEq_iff {b b' : Branch} :
    b.contentEq b' = true ↔ b.mapSlices Slice.bare = b'.mapSlices Slice.bare :=
  Node.equalUpToBranch_iff (fun s s' => beq_iff_eq.trans (@Slice.bare_eq_iff s s').symm) b b'

end Branch
end Generic
end GrammarKit
