/-
Module: GrammarKit.Generic.Node
Purpose: Generic trees.  A concrete tree follows a grammar term by term; a generic tree keeps, for each
  rule and capture, a branch of named fields.  Bookkeeping fields keep what the fields alone would lose:
  the rule, the alternatives taken, the numbers of repetitions and the shapes of lists.
Main exports: Mark, Field, Node, Branch, Branch.add, Branch.pull, Node.display
-/
import GrammarKit.Error

namespace GrammarKit.Generic

/-- Entries of bookkeeping fields. -/
inductive Mark where
  | rule (name : String)
  | choice (index : Nat)
  | count (n : Nat)
  /-- The number of elements of a list, elided ones included, and which ends are elided. -/
  | list (terms : Nat) (leading trailing : Bool)
deriving Repr, Inhabited, DecidableEq

/-- The field of the rule that a tree was parsed as. -/
def ruleField : String := "@rule"

/-- The field of the alternatives taken. -/
def choiceField : String := "@choice"

/-- The field of the numbers of repetitions. -/
def countField : String := "@count"

/-- The field of the shapes of lists. -/
def listField : String := "@delim"

/-- The values of a field: exactly one, or a list. -/
inductive Field (α : Type) where
  | one (value : α)
  | many (values : List α)
deriving Repr, Inhabited, DecidableEq

/-- Nodes of generic trees. -/
inductive Node where
  | branch (fields : Table (Field Node))
  | leaf (slice : Slice)
  | mark (mark : Mark)

instance : Inhabited Node := ⟨.branch Table.empty⟩

/-- A branch is a table of fields. -/
abbrev Branch := Table (Field Node)

namespace Field

variable {α : Type}

/-- The values of a field in order. -/
def values : Field α → List α
  | one value => [value]
  | many values => values

/-- A list without values counts as nothing. -/
def isBlank : Field α → Bool
  | one _ => false
  | many values => values.isEmpty

end Field

/-! ### Display -/

/-- How a bookkeeping entry is shown. -/
def Mark.display : Mark → String
  | rule name => name
  | choice index => toString index
  | count n => toString n
  | list terms leading trailing =>
      toString terms ++ (if leading then "+leading" else "") ++ (if trailing then "+trailing" else "")

/-- How the name of a field is shown. -/
def displayName (name : String) : String :=
  if name = "" then "''" else name

namespace Node

mutual
/-- Write a node on one line, at the end of a text. -/
def write (out : String) : Node → String
  | branch fields => writeBranch out fields
  | leaf s => out ++ toString s.start ++ "‣" ++ s.text
  | mark m => out ++ m.display

/-- Write a field. -/
def writeField (out : String) : Field Node → String
  | .one node => write out node
  | .many nodes => writeAll (out ++ "[") true nodes ++ "]"

/-- Write nodes with commas between them; `first` says that none has been written yet. -/
def writeAll (out : String) (first : Bool) : List Node → String
  | [] => out
  | node :: nodes => writeAll (write (if first then out else out ++ ", ") node) false nodes

/-- Write a branch, without the fields that hold nothing. -/
def writeBranch (out : String) : Table (Field Node) → String
  | ⟨fields⟩ => writeFields (out ++ "(") true fields ++ ")"

/-- Write the fields that hold something, with commas between them; `first` says that none has been written
yet. -/
def writeFields (out : String) (first : Bool) : List (String × Field Node) → String
  | [] => out
  | (name, field) :: fields =>
      if field.isBlank then writeFields out first fields
      else
        let out := (if first then out else out ++ ", ") ++ displayName name ++ ": "
        writeFields (writeField out field) false fields
end

/-- A node on one line. -/
def display (node : Node) : String :=
  write "" node

/-- A field on one line. -/
def displayField (field : Field Node) : String :=
  writeField "" field

/-! ### Leaves and comparison -/

mutual
/-- The leaves, field by field in the order of the names. -/
def leaves : Node → List Slice
  | branch fields => leavesBranch fields
  | leaf s => [s]
  | mark _ => []

/-- The leaves of a field. -/
def leavesField : Field Node → List Slice
  | .one node => leaves node
  | .many nodes => leavesAll nodes

/-- The leaves of several nodes. -/
def leavesAll : List Node → List Slice
  | [] => []
  | node :: nodes => leaves node ++ leavesAll nodes

/-- The leaves of a branch. -/
def leavesBranch : Table (Field Node) → List Slice
  | ⟨fields⟩ => leavesFields fields

/-- The leaves of several fields. -/
def leavesFields : List (String × Field Node) → List Slice
  | [] => []
  | (_, field) :: fields => leavesField field ++ leavesFields fields
end

mutual
/-- Whether two nodes are equal up to a given comparison of their leaves. -/
def equalUpTo (same : Slice → Slice → Bool) : Node → Node → Bool
  | branch a, branch b => equalUpToBranch same a b
  | leaf s, leaf t => same s t
  | mark m, mark n => m == n
  | _, _ => false
termination_by structural t => t

/-- Whether two fields are equal up to a given comparison of their leaves. -/
def equalUpToField (same : Slice → Slice → Bool) : Field Node → Field Node → Bool
  | .one a, .one b => equalUpTo same a b
  | .many a, .many b => equalUpToAll same a b
  | _, _ => false
termination_by structural t => t

/-- Whether two lists of nodes are equal up to a given comparison of their leaves. -/
def equalUpToAll (same : Slice → Slice → Bool) : List Node → List Node → Bool
  | [], [] => true
  | a :: as, b :: bs => equalUpTo same a b && equalUpToAll same as bs
  | _, _ => false
termination_by structural t => t

/-- Whether two branches are equal up to a given comparison of their leaves. -/
def equalUpToBranch (same : Slice → Slice → Bool) : Table (Field Node) → Table (Field Node) → Bool
  | ⟨a⟩, ⟨b⟩ => equalUpToFields same a b
termination_by structural t => t

/-- Whether two lists of fields are equal up to a given comparison of their leaves. -/
def equalUpToFields (same : Slice → Slice → Bool) :
    List (String × Field Node) → List (String × Field Node) → Bool
  | [], [] => true
  | (name, a) :: as, (name', b) :: bs =>
      name == name' && equalUpToField same a b && equalUpToFields same as bs
  | _, _ => false
termination_by structural t => t
end

mutual
/-- The number of branches on the longest way down a node. -/
def depth : Node → Nat
  | branch fields => depthBranch fields
  | leaf _ => 0
  | mark _ => 0

/-- The greatest depth in a field. -/
def depthField : Field Node → Nat
  | .one node => depth node
  | .many nodes => depthAll nodes

/-- The greatest depth of several nodes. -/
def depthAll : List Node → Nat
  | [] => 0
  | node :: nodes => max (depth node) (depthAll nodes)

/-- The depth of a branch. -/
def depthBranch : Table (Field Node) → Nat
  | ⟨fields⟩ => depthFields fields + 1

/-- The greatest depth of several fields. -/
def depthFields : List (String × Field Node) → Nat
  | [] => 0
  | (_, field) :: fields => max (depthField field) (depthFields fields)
end

/-- The branch that a node is. -/
def branch? : Node → Option Branch
  | branch fields => some fields
  | _ => none

/-- The slice that a node is. -/
def leaf? : Node → Option Slice
  | leaf s => some s
  | _ => none

/-- The slice that covers all leaves of a node, if it has any and they are of one source. -/
def slice? (node : Node) : Option Slice :=
  (Slice.merge node.leaves).toOption

/-- The characters that a node covers. -/
def chars (node : Node) : List Char :=
  match node.slice? with
  | some s => s.chars
  | none => []

/-- The text that a node covers. -/
def text (node : Node) : String :=
  String.ofList node.chars

end Node

/-! ### Fields of a branch -/

namespace Branch

/-- The value of a field with exactly one. -/
def one? (b : Branch) (name : String) : Option Node :=
  match b.get? name with
  | some (.one node) => some node
  | _ => none

/-- The values of a field that holds a list. -/
def many (b : Branch) (name : String) : List Node :=
  match b.get? name with
  | some (.many nodes) => nodes
  | _ => []

/-- All values of a field. -/
def all (b : Branch) (name : String) : List Node :=
  match b.get? name with
  | some field => field.values
  | none => []

/-- The first of some names that is a field. -/
def which? (b : Branch) (names : List String) : Option (String × Field Node) :=
  names.findSome? fun name => (b.get? name).map (name, ·)

/-- The first alternative taken. -/
def choice? (b : Branch) : Option Nat :=
  match b.many choiceField with
  | .mark (.choice i) :: _ => some i
  | _ => none

/-- The rule that the tree was parsed as. -/
def rule? (b : Branch) : Option String :=
  match b.one? ruleField with
  | some (.mark (.rule name)) => some name
  | _ => none

/-- Equal branches whose leaves start at the same offsets. -/
def agrees : Branch → Branch → Bool :=
  Node.equalUpToBranch Slice.agrees

/-- Equal branches, whatever the offsets of their leaves. -/
def contentEq : Branch → Branch → Bool :=
  Node.equalUpToBranch fun s t => s.chars == t.chars

/-- A branch on one line. -/
def display (b : Branch) : String :=
  Node.writeBranch "" b

/-- The depth of a branch. -/
def depth (b : Branch) : Nat :=
  Node.depthBranch b

/-- Add a value to a field, either as its only one or at the end of its list. -/
def add (b : Branch) (name : String) (node : Node) (single : Bool) : Except StructuralError Branch :=
  match b.get? name with
  | none => .ok (b.insert name (if single then .one node else .many [node]))
  | some field =>
      if single then .error (.duplicateField name)
      else match field with
      | .many nodes => .ok (b.insert name (.many (nodes ++ [node])))
      | .one _ => .error (.shapeMismatch (.manyField name) (Node.displayField field))

/-- Take a value out of a field: its only one, with which the field goes, or the first of its list. -/
def pull (b : Branch) (name : String) (single : Bool) : Except StructuralError (Node × Branch) :=
  match b.get? name with
  | none => .error (.missingField name)
  | some (.many []) => .error (.missingField name)
  | some (.many (node :: nodes)) =>
      if single then
        .error (.shapeMismatch (.oneField name) (Node.displayField (.many (node :: nodes))))
      else .ok (node, b.insert name (.many nodes))
  | some (.one node) =>
      if single then .ok (node, b.erase name)
      else .error (.shapeMismatch (.manyField name) (Node.displayField (.one node)))

/-- Refuse a branch that still holds values. -/
def ensureConsumed (b : Branch) : Except StructuralError Unit :=
  match b.entries.find? fun (_, field) => !field.isBlank with
  | some (name, _) => .error (.unconsumedField name)
  | none => .ok ()

end Branch
end GrammarKit.Generic
