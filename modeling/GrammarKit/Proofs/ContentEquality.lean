/-
Module: GrammarKit.Proofs.ContentEquality
Purpose: Walks do not look at where leaves come from.  To walk over a tree or a branch whose slices were passed through
  a function is to walk first and to pass the slices of the result through the function, and where the one walk fails
  the other one fails in the same way.  So what walks give for trees and branches of equal contents has equal contents.
Main exports: Except.Alike, Except.Mirrors, Term.unparse_mirrors, Generic.collect_mirrors, Generic.rebuild_mirrors,
  Parsers.contentEq_walks
-/
import GrammarKit.Proofs.EndingWalks
import GrammarKit.Proofs.SliceMaps

namespace GrammarKit

section Mirrors

variable {α β γ δ : Type}

/-- Both computations succeed with results that are related, or both fail with errors of one kind. -/
inductive Except.Alike (R : α → β → Prop) : Except Error α → Except Error β → Prop
  | ok {a : α} {b : β} (related : R a b) : Alike R (.ok a) (.ok b)
  | error {e e' : Error} (kinds : e.kind = e'.kind) : Alike R (.error e) (.error e')

/-- The second computation gives the result of the first one, passed through a function, or both fail. -/
def Except.Mirrors (m : α → β) (x : Except Error α) (y : Except Error β) : Prop :=
  Except.Alike (fun a b => b = m a) x y

namespace Except.Mirrors

variable {m : α → β} {x : Except Error α} {y : Except Error β}

theorem ok {a : α} {b : β} (related : b = m a) : Mirrors m (.ok a) (.ok b) :=
  Alike.ok related

theorem error {e e' : Error} (kinds : e.kind = e'.kind) : Mirrors m (.error e) (.error e') :=
  Alike.error kinds

/-- Steps that mirror each other are followed by steps that do. -/
theorem bind (h : Mirrors m x y) {n : γ → δ} {next : α → Except Error γ} {next' : β → Except Error δ}
    (goesOn : ∀ a, Mirrors n (next a) (next' (m a))) : Mirrors n (x >>= next) (y >>= next') := by
  cases h with
  | ok related =>
    subst related
    exact goesOn _
  | error kinds => exact error kinds

theorem map (h : Mirrors m x y) {n : γ → δ} {next : α → γ} {next' : β → δ} (same : ∀ a, next' (m a) = n (next a)) :
    Mirrors n (x.map next) (y.map next') := by
  cases h with
  | ok related =>
    subst related
    exact Alike.ok (same _)
  | error kinds => exact error kinds

theorem results (h : Mirrors m x y) :
    (∃ a, x = .ok a ∧ y = .ok (m a)) ∨ ∃ e e', x = .error e ∧ y = .error e' ∧ e.kind = e'.kind := by
  cases h with
  | ok related =>
    subst related
    exact .inl ⟨_, rfl, rfl⟩
  | error kinds => exact .inr ⟨_, _, rfl, rfl, kinds⟩

/-- Computations with one mirror are alike. -/
theorem alike {x' : Except Error α} (h : Mirrors m x y) (h' : Mirrors m x' y) :
    Except.Alike (fun a a' => m a = m a') x x' := by
  cases h with
  | ok related =>
    cases h' with
    | ok related' => exact .ok (related.symm.trans related')
  | error kinds =>
    cases h' with
    | error kinds' => exact .error (kinds.trans kinds'.symm)

end Except.Mirrors
end Mirrors

theorem Except.Alike.mono {α β : Type} {R S : α → β → Prop} {x : Except Error α} {y : Except Error β}
    (h : Except.Alike R x y) (weaker : ∀ a b, R a b → S a b) : Except.Alike S x y := by
  cases h with
  | ok related => exact .ok (weaker _ _ related)
  | error kinds => exact .error kinds

open GrammarKit.Except (Mirrors)

/-! ### Opening a tree -/

namespace Term

section Opening

variable (f : Slice → Slice) (t : Term) (tree : Tree)

theorem nodeChildren_mirrors :
    Mirrors (List.map (Tree.mapSlices f)) (nodeChildren t tree) (nodeChildren t (tree.mapSlices f)) := by
  cases tree with
  | leaf s =>
    rw [Tree.mapSlices_leaf]
    exact .error rfl
  | node tag extra children =>
    rw [Tree.mapSlices_node]
    exact .ok rfl
  | elided =>
    rw [Tree.mapSlices_elided]
    exact .error rfl

theorem chosen_mirrors :
    Mirrors (Prod.map id (Tree.mapSlices f)) (chosen t tree) (chosen t (tree.mapSlices f)) := by
  refine (nodeChildren_mirrors f t tree).bind fun children => ?_
  rw [Tree.choice?_mapSlices]
  match tree.choice?, children with
  | none, _ => exact .error rfl
  | some _, [] => exact .error rfl
  | some index, [child] => exact .ok rfl
  | some _, _ :: _ :: _ => exact .error rfl

theorem listSlots_mirrors :
    Mirrors (List.map (Tree.mapSlices f)) (listSlots t tree) (listSlots t (tree.mapSlices f)) := by
  refine (nodeChildren_mirrors f t tree).bind fun _ => ?_
  rw [Tree.slots?_mapSlices]
  cases tree.slots? with
  | none => exact .error rfl
  | some slots => exact .ok rfl

end Opening

variable {f : Slice → Slice}

/-- The slots of a list are walked over alike if its elements and its separators are. -/
theorem walkSlots_mirrors {α β : Type} {m : α → β} {element separator : Tree → α → Except Error α}
    {element' separator' : Tree → β → Except Error β}
    (elements : ∀ slot a, Mirrors m (element slot a) (element' (slot.mapSlices f) (m a)))
    (separators : ∀ slot a, Mirrors m (separator slot a) (separator' (slot.mapSlices f) (m a)))
    (slots : List Tree) (a : α) :
    Mirrors m (walkSlots element separator slots a)
      (walkSlots element' separator' (slots.map (Tree.mapSlices f)) (m a)) := by
  -- elements and separators take turns, so both pairs of walks change places in each step
  induction slots generalizing element separator element' separator' a with
  | nil => exact .ok rfl
  | cons slot slots ih =>
    rw [List.map_cons]
    by_cases skipped : slot = .elided
    · subst skipped
      rw [Tree.mapSlices_elided, Tree.walkSlots_elided, Tree.walkSlots_elided]
      exact ih separators elements a
    · rw [Tree.walkSlots_present _ _ _ _ skipped,
        Tree.walkSlots_present _ _ _ _ (mt (Tree.mapSlices_eq_elided f).mp skipped)]
      exact (elements slot a).bind fun a => ih separators elements a

/-! ### From trees to texts -/

theorem unparseLeaf_mirrors (keeps : ∀ s, (f s).chars = s.chars) (t : Term) (tree : Tree) :
    Mirrors id (unparseLeaf t tree) (unparseLeaf t (tree.mapSlices f)) := by
  cases tree with
  | leaf s =>
    rw [Tree.mapSlices_leaf]
    exact .ok (keeps s)
  | node tag extra children =>
    rw [Tree.mapSlices_node]
    exact .error rfl
  | elided =>
    rw [Tree.mapSlices_elided]
    exact .error rfl

theorem mapM_mirrors {α : Type} {write write' : Tree → Except Error α}
    (mirrors : ∀ tree, Mirrors id (write tree) (write' (tree.mapSlices f))) (trees : List Tree) :
    Mirrors id (trees.mapM write) ((trees.map (Tree.mapSlices f)).mapM write') := by
  induction trees with
  | nil => exact .ok rfl
  | cons tree trees ih =>
    rw [List.map_cons, List.mapM_cons, List.mapM_cons]
    exact (mirrors tree).bind fun _ => ih.bind fun _ => .ok rfl

section Unparse

variable {enter : Scope → Term → Tree → Except Error (List Char)}

mutual
theorem unparse_mirrors (keeps : ∀ s, (f s).chars = s.chars)
    (entered : ∀ scope body tree, Mirrors id (enter scope body tree) (enter scope body (tree.mapSlices f))) :
    ∀ (t : Term) (scope : Scope) (tree : Tree),
      Mirrors id (unparse enter scope t tree) (unparse enter scope t (tree.mapSlices f))
  | literal text, _, tree => by
    rw [unparse, unparse]
    exact unparseLeaf_mirrors keeps (literal text) tree
  | regex pattern, _, tree => by
    rw [unparse, unparse]
    exact unparseLeaf_mirrors keeps (regex pattern) tree
  | backref name default, _, tree => by
    rw [unparse, unparse]
    exact unparseLeaf_mirrors keeps (backref name default) tree
  | rule name, scope, tree => by
    rw [unparse, unparse]
    match scope.find? name with
    | none => exact .error rfl
    | some (body, inner) => exact entered inner body tree
  | capture _ t, scope, tree => by
    rw [unparse, unparse]
    exact unparse_mirrors keeps entered t scope tree
  | cut t, scope, tree => by
    rw [unparse, unparse]
    exact unparse_mirrors keeps entered t scope tree
  | withRules t rules, scope, tree => by
    rw [unparse, unparse]
    exact unparse_mirrors keeps entered t (rules :: scope) tree
  | seq ts, scope, tree => by
    rw [unparse, unparse]
    refine (nodeChildren_mirrors f (seq ts) tree).bind fun children => ?_
    rw [List.length_map]
    split
    · exact unparseItems_mirrors keeps entered ts scope children
    · exact .error rfl
  | choice ts, scope, tree => by
    rw [unparse, unparse]
    obtain ⟨⟨index, child⟩, opened, opened'⟩ | ⟨e, e', failed, failed', kinds⟩ :=
      (chosen_mirrors f (choice ts) tree).results
    · rw [opened, opened']
      exact unparseChosen_mirrors keeps entered ts scope (choice ts) tree _ index child
    · rw [failed, failed']
      exact .error kinds
  | quant t min max, scope, tree => by
    rw [unparse, unparse]
    refine (nodeChildren_mirrors f (quant t min max) tree).bind fun children => ?_
    exact (mapM_mirrors (unparse_mirrors keeps entered t scope) children).bind fun _ => .ok rfl
  | list element separator style, scope, tree => by
    rw [unparse, unparse]
    refine (listSlots_mirrors f (list element separator style) tree).bind fun slots => ?_
    refine (walkSlots_mirrors (m := id) ?_ ?_ slots []).bind fun _ => .ok rfl
    · exact fun slot texts => (unparse_mirrors keeps entered element scope slot).map fun _ => rfl
    · exact fun slot texts => (unparse_mirrors keeps entered separator scope slot).map fun _ => rfl
  | stack _, _, _ => by
    rw [unparse, unparse]
    exact .error rfl

theorem unparseItems_mirrors (keeps : ∀ s, (f s).chars = s.chars)
    (entered : ∀ scope body tree, Mirrors id (enter scope body tree) (enter scope body (tree.mapSlices f))) :
    ∀ (ts : List Term) (scope : Scope) (children : List Tree),
      Mirrors id (unparseItems enter scope ts children)
        (unparseItems enter scope ts (children.map (Tree.mapSlices f)))
  | [], _, _ => .ok rfl
  | _ :: _, _, [] => .ok rfl
  | t :: ts, scope, child :: children => by
    rw [List.map_cons, unparseItems, unparseItems]
    refine (unparse_mirrors keeps entered t scope child).bind fun _ => ?_
    exact (unparseItems_mirrors keeps entered ts scope children).bind fun _ => .ok rfl

/-- The whole node is only shown where there is no such alternative. -/
theorem unparseChosen_mirrors (keeps : ∀ s, (f s).chars = s.chars)
    (entered : ∀ scope body tree, Mirrors id (enter scope body tree) (enter scope body (tree.mapSlices f))) :
    ∀ (ts : List Term) (scope : Scope) (whole : Term) (node node' : Tree) (index : Nat) (child : Tree),
      Mirrors id (unparseChosen enter scope whole node ts index child)
        (unparseChosen enter scope whole node' ts index (child.mapSlices f))
  | [], _, _, _, _, _, _ => .error rfl
  | t :: _, scope, _, _, _, 0, child => by
    rw [unparseChosen, unparseChosen]
    exact unparse_mirrors keeps entered t scope child
  | _ :: ts, scope, whole, node, node', index + 1, child => by
    rw [unparseChosen, unparseChosen]
    exact unparseChosen_mirrors keeps entered ts scope whole node node' index child
end

end Unparse

theorem unparseRule_mirrors (keeps : ∀ s, (f s).chars = s.chars) (fuel : Nat) :
    ∀ (scope : Scope) (body : Term) (tree : Tree),
      Mirrors id (unparseRule fuel scope body tree) (unparseRule fuel scope body (tree.mapSlices f)) := by
  induction fuel with
  | zero => exact fun _ _ _ => .error rfl
  | succ fuel ih => exact fun scope body tree => unparse_mirrors keeps ih body scope tree

end Term

/-! ### From trees to generic trees -/

namespace Generic

section Collect

variable (f : Slice → Slice)

theorem add_mirrors (b : Branch) (name : String) (node : Node) (single : Bool) :
    Mirrors (Branch.mapSlices f) (lift (b.add name node single))
      (lift ((b.mapSlices f).add name (node.mapSlices f) single)) := by
  rw [Branch.add, Branch.add, Branch.get?_mapSlices]
  cases b.get? name with
  | none =>
    cases single with
    | true => exact .ok (Branch.insert_mapSlices f b name (.one node)).symm
    | false => exact .ok (Branch.insert_mapSlices f b name (.many [node])).symm
  | some field =>
    cases single with
    | true => exact .error rfl
    | false =>
      cases field with
      | one _ => exact .error rfl
      | many nodes =>
        refine .ok ?_
        rw [Branch.insert_mapSlices, Node.mapSlicesField, Node.mapSlicesAll_eq_map, Node.mapSlicesAll_eq_map,
          List.map_append]
        rfl

theorem addLeaf_mirrors (counters : Counters) (field : String) (t : Term) (b : Branch) (tree : Tree) :
    Mirrors (Branch.mapSlices f) (addLeaf counters field t b tree)
      (addLeaf counters field t (b.mapSlices f) (tree.mapSlices f)) := by
  cases tree with
  | leaf s =>
    rw [Tree.mapSlices_leaf]
    exact add_mirrors f b field (.leaf s) (counters.isSingle field)
  | node tag extra children =>
    rw [Tree.mapSlices_node]
    exact .error rfl
  | elided =>
    rw [Tree.mapSlices_elided]
    exact .error rfl

theorem addMark_mirrors (field : String) (mark : Mark) (b : Branch) :
    Mirrors (Branch.mapSlices f) (addMark field mark b) (addMark field mark (b.mapSlices f)) :=
  add_mirrors f b field (.mark mark) false

theorem isElided_mapSlices (slot : Tree) : isElided (slot.mapSlices f) = isElided slot := by
  cases slot with
  | elided => rw [Tree.mapSlices_elided]
  | _ => simp [isElided]

theorem listMark_mapSlices (slots : List Tree) : listMark (slots.map (Tree.mapSlices f)) = listMark slots := by
  rw [listMark_eq, listMark_eq, List.length_map, List.head?_map, List.getLast?_map, Option.any_map, Option.any_map]
  simp only [isElided_mapSlices]

variable {f}

theorem foldlM_mirrors {write write' : Branch → Tree → Except Error Branch}
    (mirrors : ∀ b tree, Mirrors (Branch.mapSlices f) (write b tree) (write' (b.mapSlices f) (tree.mapSlices f)))
    (trees : List Tree) (b : Branch) :
    Mirrors (Branch.mapSlices f) (trees.foldlM write b)
      ((trees.map (Tree.mapSlices f)).foldlM write' (b.mapSlices f)) := by
  induction trees generalizing b with
  | nil => exact .ok rfl
  | cons tree trees ih =>
    rw [List.map_cons, List.foldlM_cons, List.foldlM_cons]
    exact (mirrors b tree).bind ih

variable {enter : Scope → Term → Tree → Except Error Branch}

mutual
theorem collect_mirrors (entered : ∀ scope body tree,
    Mirrors (Branch.mapSlices f) (enter scope body tree) (enter scope body (tree.mapSlices f))) :
    ∀ (t : Term) (scope : Scope) (counters : Counters) (tree : Tree) (b : Branch),
      Mirrors (Branch.mapSlices f) (collect enter scope counters t tree b)
        (collect enter scope counters t (tree.mapSlices f) (b.mapSlices f))
  | .literal text, _, counters, tree, b => by
    rw [collect, collect]
    exact addLeaf_mirrors f counters "" (.literal text) b tree
  | .regex pattern, _, counters, tree, b => by
    rw [collect, collect]
    exact addLeaf_mirrors f counters "" (.regex pattern) b tree
  | .backref name default, _, counters, tree, b => by
    rw [collect, collect]
    exact addLeaf_mirrors f counters name (.backref name default) b tree
  | .rule name, scope, counters, tree, b => by
    rw [collect, collect]
    match scope.find? name with
    | none => exact .error rfl
    | some (body, inner) => exact (entered inner body tree).bind fun child => add_mirrors f b _ (.branch child) _
  | .capture name t, scope, counters, tree, b => by
    rw [collect, collect]
    have inner := collect_mirrors entered t scope (.ofTerm t) tree (Counters.ofTerm t).emptyBranch
    rw [Branch.emptyBranch_mapSlices] at inner
    exact inner.bind fun child => add_mirrors f b name (.branch child) _
  | .cut t, scope, counters, tree, b => by
    rw [collect, collect]
    exact collect_mirrors entered t scope counters tree b
  | .withRules t rules, scope, counters, tree, b => by
    rw [collect, collect]
    exact collect_mirrors entered t (rules :: scope) counters tree b
  | .seq ts, scope, counters, tree, b => by
    rw [collect, collect]
    refine (Term.nodeChildren_mirrors f (.seq ts) tree).bind fun children => ?_
    rw [List.length_map]
    split
    · exact collectItems_mirrors entered ts scope counters children b
    · exact .error rfl
  | .choice ts, scope, counters, tree, b => by
    rw [collect, collect]
    obtain ⟨⟨index, child⟩, opened, opened'⟩ | ⟨e, e', failed, failed', kinds⟩ :=
      (Term.chosen_mirrors f (.choice ts) tree).results
    · rw [opened, opened']
      exact collectChosen_mirrors entered ts scope counters (.choice ts) tree _ index index child b
    · rw [failed, failed']
      exact .error kinds
  | .quant t min max, scope, counters, tree, b => by
    rw [collect, collect]
    refine (Term.nodeChildren_mirrors f (.quant t min max) tree).bind fun children => ?_
    rw [List.length_map]
    refine (addMark_mirrors f countField (.count children.length) b).bind fun b => ?_
    exact foldlM_mirrors (fun b child => collect_mirrors entered t scope counters child b) children b
  | .list element separator style, scope, counters, tree, b => by
    rw [collect, collect]
    refine (Term.listSlots_mirrors f (.list element separator style) tree).bind fun slots => ?_
    rw [listMark_mapSlices]
    refine (addMark_mirrors f listField (listMark slots) b).bind fun b => ?_
    exact Term.walkSlots_mirrors (collect_mirrors entered element scope counters)
      (collect_mirrors entered separator scope counters) slots b
  | .stack _, _, _, _, _ => by
    rw [collect, collect]
    exact .error rfl

theorem collectItems_mirrors (entered : ∀ scope body tree,
    Mirrors (Branch.mapSlices f) (enter scope body tree) (enter scope body (tree.mapSlices f))) :
    ∀ (ts : List Term) (scope : Scope) (counters : Counters) (children : List Tree) (b : Branch),
      Mirrors (Branch.mapSlices f) (collectItems enter scope counters ts children b)
        (collectItems enter scope counters ts (children.map (Tree.mapSlices f)) (b.mapSlices f))
  | [], _, _, _, _ => .ok rfl
  | _ :: _, _, _, [], _ => .ok rfl
  | t :: ts, scope, counters, child :: children, b => by
    rw [List.map_cons, collectItems, collectItems]
    refine (collect_mirrors entered t scope counters child b).bind fun b => ?_
    exact collectItems_mirrors entered ts scope counters children b

theorem collectChosen_mirrors (entered : ∀ scope body tree,
    Mirrors (Branch.mapSlices f) (enter scope body tree) (enter scope body (tree.mapSlices f))) :
    ∀ (ts : List Term) (scope : Scope) (counters : Counters) (whole : Term) (node node' : Tree)
      (chosen index : Nat) (child : Tree) (b : Branch),
      Mirrors (Branch.mapSlices f) (collectChosen enter scope counters whole node chosen ts index child b)
        (collectChosen enter scope counters whole node' chosen ts index (child.mapSlices f) (b.mapSlices f))
  | [], _, _, _, _, _, _, _, _, _ => .error rfl
  | t :: _, scope, counters, _, _, _, chosen, 0, child, b => by
    rw [collectChosen, collectChosen]
    refine (addMark_mirrors f choiceField (.choice chosen) b).bind fun b => ?_
    exact collect_mirrors entered t scope counters child b
  | _ :: ts, scope, counters, whole, node, node', chosen, index + 1, child, b => by
    rw [collectChosen, collectChosen]
    exact collectChosen_mirrors entered ts scope counters whole node node' chosen index child b
end

theorem ofRule_mirrors (fuel : Nat) : ∀ (scope : Scope) (body : Term) (tree : Tree),
    Mirrors (Branch.mapSlices f) (ofRule fuel scope body tree) (ofRule fuel scope body (tree.mapSlices f)) := by
  induction fuel with
  | zero => exact fun _ _ _ => .error rfl
  | succ fuel ih =>
    intro scope body tree
    have inner := collect_mirrors ih body scope (.ofTerm body) tree (Counters.ofTerm body).emptyBranch
    rwa [Branch.emptyBranch_mapSlices] at inner

end Collect

/-! ### From generic trees to trees -/

section Rebuild

variable (f : Slice → Slice)

theorem pull_mirrors (b : Branch) (name : String) (single : Bool) :
    Mirrors (Prod.map (Node.mapSlices f) (Branch.mapSlices f)) (lift (b.pull name single))
      (lift ((b.mapSlices f).pull name single)) := by
  rw [Branch.pull, Branch.pull, Branch.get?_mapSlices]
  cases b.get? name with
  | none => exact .error rfl
  | some field =>
    rcases field with node | _ | ⟨node, nodes⟩
    · cases single with
      | true => exact .ok (congrArg (Prod.mk _) (Branch.erase_mapSlices f b name).symm)
      | false => exact .error rfl
    · exact .error rfl
    · cases single with
      | true => exact .error rfl
      | false => exact .ok (congrArg (Prod.mk _) (Branch.insert_mapSlices f b name (.many nodes)).symm)

theorem pullLeaf_mirrors (counters : Counters) (field : String) (b : Branch) :
    Mirrors (Prod.map (Tree.mapSlices f) (Branch.mapSlices f)) (pullLeaf counters field b)
      (pullLeaf counters field (b.mapSlices f)) := by
  refine (pull_mirrors f b field (counters.isSingle field)).bind fun (node, b) => ?_
  cases node with
  | leaf s => exact .ok rfl
  | branch fields => exact .error rfl
  | mark m => exact .error rfl

theorem pullBranch_mirrors (counters : Counters) (field : String) (b : Branch) :
    Mirrors (Prod.map (Branch.mapSlices f) (Branch.mapSlices f)) (pullBranch counters field b)
      (pullBranch counters field (b.mapSlices f)) := by
  refine (pull_mirrors f b field (counters.isSingle field)).bind fun (node, b) => ?_
  cases node with
  | branch fields => exact .ok rfl
  | leaf s => exact .error rfl
  | mark m => exact .error rfl

theorem pullMark_mirrors (field : String) (b : Branch) :
    Mirrors (Prod.map id (Branch.mapSlices f)) (pullMark field b) (pullMark field (b.mapSlices f)) := by
  refine (pull_mirrors f b field false).bind fun (node, b) => ?_
  cases node with
  | mark m => exact .ok rfl
  | branch fields => exact .error rfl
  | leaf s => exact .error rfl

theorem pullChoice_mirrors (b : Branch) :
    Mirrors (Prod.map id (Branch.mapSlices f)) (pullChoice b) (pullChoice (b.mapSlices f)) := by
  refine (pullMark_mirrors f choiceField b).bind fun (m, b) => ?_
  cases m with
  | choice index => exact .ok rfl
  | rule name => exact .error rfl
  | count n => exact .error rfl
  | list terms leading trailing => exact .error rfl

theorem pullCount_mirrors (min max : Nat) (b : Branch) :
    Mirrors (Prod.map id (Branch.mapSlices f)) (pullCount min max b) (pullCount min max (b.mapSlices f)) := by
  refine (pullMark_mirrors f countField b).bind fun (m, b) => ?_
  cases m with
  | count n =>
    simp only [Prod.map_apply, id]
    split
    · exact .error rfl
    · exact .ok rfl
  | rule name => exact .error rfl
  | choice index => exact .error rfl
  | list terms leading trailing => exact .error rfl

theorem pullList_mirrors (b : Branch) :
    Mirrors (Prod.map id (Branch.mapSlices f)) (pullList b) (pullList (b.mapSlices f)) := by
  refine (pullMark_mirrors f listField b).bind fun (m, b) => ?_
  cases m with
  | list terms leading trailing =>
    simp only [Prod.map_apply, id]
    split
    · exact .error rfl
    · exact .ok rfl
  | rule name => exact .error rfl
  | choice index => exact .error rfl
  | count n => exact .error rfl

theorem ensureConsumed_mirrors (b : Branch) :
    Mirrors id (lift b.ensureConsumed) (lift (b.mapSlices f).ensureConsumed) := by
  rw [Branch.ensureConsumed, Branch.ensureConsumed, Branch.entries_mapSlices, List.find?_map]
  simp only [Function.comp_def, Node.isBlank_mapSlicesField]
  cases b.entries.find? fun entry => !entry.2.isBlank with
  | none => exact .ok rfl
  | some entry => exact .error rfl

variable {f}

theorem rebuildTimes_mirrors {step : Branch → Except Error (Tree × Branch)}
    (steps : ∀ b, Mirrors (Prod.map (Tree.mapSlices f) (Branch.mapSlices f)) (step b) (step (b.mapSlices f))) :
    ∀ (n : Nat) (b : Branch), Mirrors (Prod.map (List.map (Tree.mapSlices f)) (Branch.mapSlices f))
      (rebuildTimes step n b) (rebuildTimes step n (b.mapSlices f))
  | 0, _ => .ok rfl
  | n + 1, b => (steps b).bind fun (_, b) => (rebuildTimes_mirrors steps n b).bind fun (_, _) => .ok rfl

theorem rebuildSlots_mirrors {element separator : Branch → Except Error (Tree × Branch)}
    (elements : ∀ b,
      Mirrors (Prod.map (Tree.mapSlices f) (Branch.mapSlices f)) (element b) (element (b.mapSlices f)))
    (separators : ∀ b,
      Mirrors (Prod.map (Tree.mapSlices f) (Branch.mapSlices f)) (separator b) (separator (b.mapSlices f)))
    (leading trailing : Bool) (left : Nat) (first : Bool) (b : Branch) :
    Mirrors (Prod.map (List.map (Tree.mapSlices f)) (Branch.mapSlices f))
      (rebuildSlots element separator leading trailing left first b)
      (rebuildSlots element separator leading trailing left first (b.mapSlices f)) := by
  have here (elided : Bool) (b : Branch) : Mirrors (Prod.map (Tree.mapSlices f) (Branch.mapSlices f))
      (if elided then .ok (.elided, b) else element b)
      (if elided then .ok (.elided, b.mapSlices f) else element (b.mapSlices f)) := by
    split
    · exact .ok (congrArg (Prod.mk · _) (Tree.mapSlices_elided f).symm)
    · exact elements b
  induction left generalizing first b with
  | zero =>
    rw [rebuildSlots_zero, rebuildSlots_zero]
    exact (here _ b).bind fun (_, _) => .ok rfl
  | succ left ih =>
    rw [rebuildSlots_succ, rebuildSlots_succ]
    refine (here _ b).bind fun (_, b) => ?_
    exact (separators b).bind fun (_, b) => (ih false b).bind fun (_, _) => .ok rfl

variable {enter : Scope → Term → String → Branch → Except Error Tree}

mutual
theorem rebuild_mirrors (entered : ∀ scope body name b,
    Mirrors (Tree.mapSlices f) (enter scope body name b) (enter scope body name (b.mapSlices f))) :
    ∀ (t : Term) (scope : Scope) (counters : Counters) (label : Option String) (b : Branch),
      Mirrors (Prod.map (Tree.mapSlices f) (Branch.mapSlices f)) (rebuild enter scope counters label t b)
        (rebuild enter scope counters label t (b.mapSlices f))
  | .literal _, _, counters, _, b => by
    rw [rebuild, rebuild]
    exact pullLeaf_mirrors f counters "" b
  | .regex _, _, counters, _, b => by
    rw [rebuild, rebuild]
    exact pullLeaf_mirrors f counters "" b
  | .backref name _, _, counters, _, b => by
    rw [rebuild, rebuild]
    exact pullLeaf_mirrors f counters name b
  | .rule name, scope, counters, _, b => by
    rw [rebuild, rebuild]
    match scope.find? name with
    | none => exact .error rfl
    | some (body, inner) =>
      refine (pullBranch_mirrors f counters (baseName name) b).bind fun (child, b) => ?_
      exact (entered inner body name child).bind fun _ => .ok rfl
  | .capture name t, scope, counters, _, b => by
    rw [rebuild, rebuild]
    refine (pullBranch_mirrors f counters name b).bind fun (child, b) => ?_
    refine (rebuild_mirrors entered t scope (.ofTerm t) (some name) child).bind fun (_, child) => ?_
    exact (ensureConsumed_mirrors f child).bind fun _ => .ok rfl
  | .cut t, scope, counters, label, b => by
    rw [rebuild, rebuild]
    exact rebuild_mirrors entered t scope counters label b
  | .withRules t rules, scope, counters, label, b => by
    rw [rebuild, rebuild]
    exact rebuild_mirrors entered t (rules :: scope) counters label b
  | .seq ts, scope, counters, label, b => by
    rw [rebuild, rebuild]
    refine (rebuildItems_mirrors entered ts scope counters b).bind fun (children, b) => ?_
    exact .ok (congrArg (Prod.mk · _) (Tree.mapSlices_node f _ none children).symm)
  | .choice ts, scope, counters, label, b => by
    rw [rebuild, rebuild]
    refine (pullChoice_mirrors f b).bind fun (index, b) => ?_
    refine (rebuildChosen_mirrors entered ts scope counters index ts.length index b).bind fun (child, b) => ?_
    exact .ok (congrArg (Prod.mk · _) (Tree.mapSlices_node f _ (some (.choice index)) [child]).symm)
  | .quant t min max, scope, counters, label, b => by
    rw [rebuild, rebuild]
    refine (pullCount_mirrors f min max b).bind fun (n, b) => ?_
    refine (rebuildTimes_mirrors (rebuild_mirrors entered t scope counters none) n b).bind fun (children, b) => ?_
    exact .ok (congrArg (Prod.mk · _) (Tree.mapSlices_node f _ none children).symm)
  | .list element separator style, scope, counters, label, b => by
    rw [rebuild, rebuild]
    refine (pullList_mirrors f b).bind fun ((terms, leading, trailing), b) => ?_
    refine (rebuildSlots_mirrors (rebuild_mirrors entered element scope counters none)
      (rebuild_mirrors entered separator scope counters none) leading trailing (terms - 1) true b).bind
      fun (slots, b) => ?_
    exact .ok (congrArg (Prod.mk · _) (Tree.ofSlots_mapSlices f _ style.assoc slots).symm)
  | .stack _, _, _, _, _ => by
    rw [rebuild, rebuild]
    exact .error rfl

theorem rebuildItems_mirrors (entered : ∀ scope body name b,
    Mirrors (Tree.mapSlices f) (enter scope body name b) (enter scope body name (b.mapSlices f))) :
    ∀ (ts : List Term) (scope : Scope) (counters : Counters) (b : Branch),
      Mirrors (Prod.map (List.map (Tree.mapSlices f)) (Branch.mapSlices f)) (rebuildItems enter scope counters ts b)
        (rebuildItems enter scope counters ts (b.mapSlices f))
  | [], _, _, _ => .ok rfl
  | t :: ts, scope, counters, b => by
    rw [rebuildItems, rebuildItems]
    refine (rebuild_mirrors entered t scope counters none b).bind fun (_, b) => ?_
    exact (rebuildItems_mirrors entered ts scope counters b).bind fun (_, _) => .ok rfl

theorem rebuildChosen_mirrors (entered : ∀ scope body name b,
    Mirrors (Tree.mapSlices f) (enter scope body name b) (enter scope body name (b.mapSlices f))) :
    ∀ (ts : List Term) (scope : Scope) (counters : Counters) (chosen count index : Nat) (b : Branch),
      Mirrors (Prod.map (Tree.mapSlices f) (Branch.mapSlices f))
        (rebuildChosen enter scope counters chosen count ts index b)
        (rebuildChosen enter scope counters chosen count ts index (b.mapSlices f))
  | [], _, _, _, _, _, _ => .error rfl
  | t :: _, scope, counters, _, _, 0, b => by
    rw [rebuildChosen, rebuildChosen]
    exact rebuild_mirrors entered t scope counters none b
  | _ :: ts, scope, counters, chosen, count, index + 1, b => by
    rw [rebuildChosen, rebuildChosen]
    exact rebuildChosen_mirrors entered ts scope counters chosen count index b
end

theorem toRule_mirrors (fuel : Nat) : ∀ (scope : Scope) (body : Term) (name : String) (b : Branch),
    Mirrors (Tree.mapSlices f) (toRule fuel scope body name b) (toRule fuel scope body name (b.mapSlices f)) := by
  induction fuel with
  | zero => exact fun _ _ _ _ => .error rfl
  | succ fuel ih =>
    intro scope body name b
    refine (rebuild_mirrors ih body scope (.ofTerm body) (some name) b).bind fun (_, b) => ?_
    exact (ensureConsumed_mirrors f b).bind fun _ => .ok rfl

end Rebuild
end Generic

/-! ### Whole walks -/

namespace Grammar

variable (g : Grammar) (f : Slice → Slice) (rule : String) (tree : Tree)

theorem walkFuel_mapSlices : g.walkFuel (tree.mapSlices f) = g.walkFuel tree := by
  rw [walkFuel, walkFuel, Tree.depth_mapSlices]

theorem unparse_mirrors {f : Slice → Slice} (keeps : ∀ s, (f s).chars = s.chars) :
    Mirrors id (g.unparse rule tree) (g.unparse rule (tree.mapSlices f)) := by
  rw [unparse, unparse]
  split
  · next body _ =>
    rw [walkFuel_mapSlices]
    exact (Term.unparseRule_mirrors keeps (g.walkFuel tree) [g] body tree).map fun _ => rfl
  · exact .error rfl

theorem flatToGeneric_mirrors :
    Mirrors (Generic.Branch.mapSlices f) (g.flatToGeneric rule tree) (g.flatToGeneric rule (tree.mapSlices f)) := by
  rw [flatToGeneric, flatToGeneric]
  split
  · next body _ =>
    rw [walkFuel_mapSlices]
    exact (Generic.ofRule_mirrors (g.walkFuel tree) [g] body tree).bind fun root =>
      Generic.add_mirrors f root Generic.ruleField (.mark (.rule rule)) true
  · exact .error rfl

theorem flatOfGeneric_mirrors (b : Generic.Branch) :
    Mirrors (Tree.mapSlices f) (g.flatOfGeneric b) (g.flatOfGeneric (b.mapSlices f)) := by
  refine (Generic.pull_mirrors f b Generic.ruleField true).bind fun (node, root) => ?_
  match node with
  | .mark (.rule rule) =>
    simp only [Prod.map_apply, Generic.Node.mapSlices]
    split
    · next body _ =>
      rw [Generic.Branch.depth_mapSlices]
      exact Generic.toRule_mirrors (b.depth + 1) [g] body rule root
    · exact .error rfl
  | .mark (.choice _) => exact .error rfl
  | .mark (.count _) => exact .error rfl
  | .mark (.list _ _ _) => exact .error rfl
  | .leaf _ => exact .error rfl
  | .branch _ => exact .error rfl

end Grammar

namespace Parsers

variable {g : Grammar} {options : CompileOptions} {p : Parsers}

/-- **Walks see contents alone.**  In a validated grammar, writing out trees of equal contents gives one text for both,
and converting them gives generic trees of equal contents; converting generic trees of equal contents gives trees of
equal contents; or else there is an error for both, and of one kind.  None of these walks goes on for ever. -/
theorem contentEq_walks (compiled : g.compile options = .ok p) (validated : options.validate = true) :
    (∀ rule tree, p.unparse rule tree ≠ .error .endless ∧ p.toGeneric rule tree ≠ .error .endless ∧
      ∀ tree' : Tree, tree.contentEq tree' = true →
        Except.Alike (· = ·) (p.unparse rule tree) (p.unparse rule tree') ∧
        Except.Alike (fun b b' : Generic.Branch => b.contentEq b' = true) (p.toGeneric rule tree)
          (p.toGeneric rule tree')) ∧
      ∀ b, p.ofGeneric b ≠ .error .endless ∧ ∀ b' : Generic.Branch, b.contentEq b' = true →
        Except.Alike (fun tree tree' : Tree => tree.contentEq tree' = true) (p.ofGeneric b) (p.ofGeneric b') := by
  constructor
  · intro rule tree
    refine ⟨(unparse_ends compiled validated rule tree).ne, (toGeneric_ends compiled validated rule tree).ne, ?_⟩
    intro tree' same
    have bare := Tree.contentEq_iff.mp same
    constructor
    · have here := p.flat.unparse_mirrors rule tree fun s : Slice => s.chars_bare
      have there := p.flat.unparse_mirrors rule tree' fun s : Slice => s.chars_bare
      rw [← bare] at there
      exact here.alike there
    · have here := p.flat.flatToGeneric_mirrors Slice.bare rule tree
      have there := p.flat.flatToGeneric_mirrors Slice.bare rule tree'
      rw [← bare] at there
      exact (here.alike there).mono fun _ _ => Generic.Branch.contentEq_iff.mpr
  · refine fun b => ⟨(p.ofGeneric_ends b).ne, fun b' same => ?_⟩
    have here := p.flat.flatOfGeneric_mirrors Slice.bare b
    have there := p.flat.flatOfGeneric_mirrors Slice.bare b'
    rw [← Generic.Branch.contentEq_iff.mp same] at there
    exact (here.alike there).mono fun _ _ => Tree.contentEq_iff.mpr

/-- Sums of digits, with blanks between them. -/
def spacedSums : Grammar :=
  ⟨[(".wrapRE", .regex " *()"), ("sum", .list (.regex "[0-9]") (.literal "+") { assoc := .leftToRight })]⟩

theorem contentEq_walks_spacedSums : ∃ p tree tree' b b', spacedSums.compile {} = .ok p ∧
    p.parse "sum" (.ofText "1+2") = .ok tree ∧ p.parse "sum" (.ofText " 1 + 2") = .ok tree' ∧
    tree.agrees tree' = false ∧ Except.Alike (· = ·) (p.unparse "sum" tree) (p.unparse "sum" tree') ∧
    p.toGeneric "sum" tree = .ok b ∧ p.toGeneric "sum" tree' = .ok b' ∧ b.contentEq b' = true ∧
    Except.Alike (fun tree tree' : Tree => tree.contentEq tree' = true) (p.ofGeneric b) (p.ofGeneric b') := by
  have runs : (spacedSums.compile {}).toOption.any (fun p =>
      (p.parse "sum" (.ofText "1+2")).toOption.any fun tree =>
      (p.parse "sum" (.ofText " 1 + 2")).toOption.any fun tree' =>
        tree.contentEq tree' && !tree.agrees tree' && (p.toGeneric "sum" tree).isOk) = true := by
    decide +kernel
  obtain ⟨p, compiled, runs⟩ := Except.exists_of_any runs
  obtain ⟨tree, parsed, runs⟩ := Except.exists_of_any runs
  obtain ⟨tree', parsed', runs⟩ := Except.exists_of_any runs
  simp only [Bool.and_eq_true, Bool.not_eq_true'] at runs
  obtain ⟨⟨same, apart⟩, converted⟩ := runs
  obtain ⟨trees, branches⟩ := contentEq_walks compiled rfl
  obtain ⟨texts, generic⟩ := (trees "sum" tree).2.2 tree' same
  generalize made : p.toGeneric "sum" tree = x at generic converted
  generalize made' : p.toGeneric "sum" tree' = x' at generic
  cases generic with
  | ok same' => exact ⟨p, tree, tree', _, _, compiled, parsed, parsed', apart, texts, made, made', same',
      (branches _).2 _ same'⟩
  | error _ => cases converted

end Parsers
end GrammarKit
