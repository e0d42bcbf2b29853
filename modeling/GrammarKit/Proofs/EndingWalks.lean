/-
Module: GrammarKit.Proofs.EndingWalks
Purpose: Walks end.  In a validated grammar a rule that is entered at the same node as the one before ranks lower, and
  a step down the tree pays for all ranks, so no walk over a tree, whatever tree it is, uses up the rules inside each
  other that it is allowed.  Walks over generic trees go down one branch with every rule, in any grammar.
Main exports: Program.entered_of_built, Parsers.walk_induction, Parsers.unparse_ends, Parsers.toGeneric_ends,
  Grammar.ofGeneric_ends, Parsers.walks_end
-/
import GrammarKit.Proofs.Bridge
import GrammarKit.Proofs.RuleEntries

namespace GrammarKit

theorem Error.structural_ne_endless (e : StructuralError) : Error.structural e ≠ .endless :=
  nofun

theorem Error.unknownRule_ne_endless (name : String) : Error.unknownRule name ≠ .endless :=
  nofun

open GrammarKit.Error (structural_ne_endless unknownRule_ne_endless)

/-- A computation that comes to an end, be it with an error. -/
abbrev Except.Ends {α : Type} (x : Except Error α) : Prop :=
  Except.FailsOnly (· ≠ .endless) x

theorem Except.Ends.ne {α : Type} {x : Except Error α} (h : Except.Ends x) : x ≠ .error .endless :=
  fun endless => h .endless endless rfl

/-- Two computations that come to the same end: a result of which something is known, or an error. -/
inductive Except.EndAlike {α : Type} (post : α → Prop) : Except Error α → Except Error α → Prop
  | ok {a : α} (here : post a) : EndAlike post (.ok a) (.ok a)
  | error {e : Error} (here : e ≠ .endless) : EndAlike post (.error e) (.error e)

/-- Two computations that come to the same end, whatever the result. -/
abbrev Except.SameEnd {α : Type} (x y : Except Error α) : Prop :=
  Except.EndAlike (fun _ => True) x y

namespace Except

variable {α β : Type} {post : α → Prop} {post' : β → Prop} {x y : Except Error α}

theorem Ends.alike (h : Ends x) : EndAlike (fun a => x = .ok a) x x := by
  cases x with
  | ok a => exact .ok rfl
  | error e => exact .error (h e rfl)

theorem Meets.alike (h : Meets post (· ≠ .endless) x) : EndAlike post x x := by
  cases h with
  | ok here => exact .ok here
  | error here => exact .error here

namespace EndAlike

theorem ends (h : EndAlike post x y) : Ends x := by
  cases h with
  | ok _ => exact .ok _
  | error here => exact .error here

theorem eq (h : EndAlike post x y) : x = y := by
  cases h <;> rfl

theorem same (h : EndAlike post x y) : SameEnd x y := by
  cases h with
  | ok _ => exact .ok trivial
  | error here => exact .error here

theorem bind (h : EndAlike post x y) {f g : α → Except Error β}
    (goesOn : ∀ a, post a → EndAlike post' (f a) (g a)) : EndAlike post' (x >>= f) (y >>= g) := by
  cases h with
  | ok here => exact goesOn _ here
  | error here => exact .error here

theorem map (h : EndAlike post x y) (f : α → β) : SameEnd (x.map f) (y.map f) := by
  cases h with
  | ok _ => exact .ok trivial
  | error here => exact .error here

theorem mapM {f g : α → Except Error β} {as : List α} (each : ∀ a ∈ as, SameEnd (f a) (g a)) :
    SameEnd (as.mapM f) (as.mapM g) := by
  induction as with
  | nil => exact .ok trivial
  | cons a as ih =>
    obtain ⟨here, others⟩ := List.forall_mem_cons.mp each
    rw [List.mapM_cons, List.mapM_cons]
    exact here.bind fun _ _ => (ih others).bind fun _ _ => .ok trivial

theorem foldlM {f g : β → α → Except Error β} {as : List α} (each : ∀ a ∈ as, ∀ b, SameEnd (f b a) (g b a)) (b : β) :
    SameEnd (as.foldlM f b) (as.foldlM g b) := by
  induction as generalizing b with
  | nil => exact .ok trivial
  | cons a as ih =>
    obtain ⟨here, others⟩ := List.forall_mem_cons.mp each
    rw [List.foldlM_cons, List.foldlM_cons]
    exact (here b).bind fun b _ => ih others b

end EndAlike
end Except

namespace Term

/-! ### Opening a tree -/

theorem nodeChildren_ends (t : Term) (tree : Tree) : Except.Ends (nodeChildren t tree) := by
  cases tree with
  | node tag extra children => exact .ok children
  | leaf s => exact .error (structural_ne_endless _)
  | elided => exact .error (structural_ne_endless _)

theorem chosen_ends (t : Term) (tree : Tree) : Except.Ends (chosen t tree) := by
  refine (nodeChildren_ends t tree).bind fun children _ => ?_
  split
  · exact .ok _
  · exact .error (structural_ne_endless _)

theorem listSlots_ends (t : Term) (tree : Tree) : Except.Ends (listSlots t tree) := by
  refine (nodeChildren_ends t tree).bind fun _ _ => ?_
  split
  · exact .ok _
  · exact .error (structural_ne_endless _)

/-- Walks over slots come to the same end if elements and separators do at all of them. -/
theorem walkSlots_same {α : Type} {element separator element' separator' : Tree → α → Except Error α}
    {slots : List Tree} (elements : ∀ slot ∈ slots, ∀ a, Except.SameEnd (element slot a) (element' slot a))
    (separators : ∀ slot ∈ slots, ∀ a, Except.SameEnd (separator slot a) (separator' slot a)) (a : α) :
    Except.SameEnd (walkSlots element separator slots a) (walkSlots element' separator' slots a) := by
  induction slots generalizing element separator element' separator' a with
  | nil => exact .ok trivial
  | cons slot slots ih =>
    obtain ⟨here, others⟩ := List.forall_mem_cons.mp elements
    obtain ⟨-, others'⟩ := List.forall_mem_cons.mp separators
    by_cases skipped : slot = .elided
    · rw [skipped, Tree.walkSlots_elided, Tree.walkSlots_elided]
      exact ih others' others a
    · rw [Tree.walkSlots_present _ _ _ _ skipped, Tree.walkSlots_present _ _ _ _ skipped]
      exact (here a).bind fun a _ => ih others' others a

/-! ### Unparsing -/

theorem unparseLeaf_ends (t : Term) (tree : Tree) : Except.Ends (unparseLeaf t tree) := by
  cases tree with
  | leaf s => exact .ok s.chars
  | node tag extra children => exact .error (structural_ne_endless _)
  | elided => exact .error (structural_ne_endless _)

variable {enter enter' : Scope → Term → Tree → Except Error (List Char)}

mutual
/-- Two ways of writing a tree come to the same end if they do for all rules that are entered. -/
theorem unparse_same : ∀ (t : Term) {scope : Scope} {tree : Tree},
    Entered (fun inner body tree => Except.SameEnd (enter inner body tree) (enter' inner body tree)) scope t tree →
      Except.SameEnd (unparse enter scope t tree) (unparse enter' scope t tree)
  | literal text, _, tree, _ => by
    rw [unparse, unparse]
    exact (unparseLeaf_ends (literal text) tree).alike.same
  | regex pattern, _, tree, _ => by
    rw [unparse, unparse]
    exact (unparseLeaf_ends (regex pattern) tree).alike.same
  | backref name default, _, tree, _ => by
    rw [unparse, unparse]
    exact (unparseLeaf_ends (backref name default) tree).alike.same
  | stack _, _, _, _ => by
    rw [unparse, unparse]
    exact .error (structural_ne_endless _)
  | rule name, scope, tree, entered => by
    rw [unparse, unparse]
    split
    · next body inner found => exact entered body inner found
    · exact .error (unknownRule_ne_endless _)
  | capture _ t, _, _, entered => by
    rw [unparse, unparse]
    exact unparse_same t entered
  | cut t, _, _, entered => by
    rw [unparse, unparse]
    exact unparse_same t entered
  | withRules t rules, _, _, entered => by
    rw [unparse, unparse]
    exact unparse_same t entered
  | seq ts, scope, tree, entered => by
    rw [unparse, unparse]
    refine (nodeChildren_ends (seq ts) tree).alike.bind fun children opened => ?_
    split
    · exact unparseItems_same ts (entered children opened)
    · exact .error (structural_ne_endless _)
  | choice ts, scope, tree, entered => by
    rw [unparse, unparse]
    split
    · next index child opened => exact unparseChosen_same ts (entered index child opened)
    · next error failed => exact .error (chosen_ends (choice ts) tree error failed)
  | quant t min max, scope, tree, entered => by
    rw [unparse, unparse]
    refine (nodeChildren_ends (quant t min max) tree).alike.bind fun children opened => ?_
    refine Except.EndAlike.bind (.mapM fun child member => ?_) fun _ _ => .ok trivial
    exact unparse_same t (entered children opened child member)
  | list element separator style, scope, tree, entered => by
    rw [unparse, unparse]
    refine (listSlots_ends (list element separator style) tree).alike.bind fun slots opened => ?_
    refine (walkSlots_same ?_ ?_ []).bind fun _ _ => .ok trivial
    · exact fun slot member texts => (unparse_same element (entered slots opened slot member).1).map _
    · exact fun slot member texts => (unparse_same separator (entered slots opened slot member).2).map _

theorem unparseItems_same : ∀ (ts : List Term) {scope : Scope} {children : List Tree},
    (∀ child ∈ children, EnteredAll
      (fun inner body tree => Except.SameEnd (enter inner body tree) (enter' inner body tree)) scope ts child) →
      Except.SameEnd (unparseItems enter scope ts children) (unparseItems enter' scope ts children)
  | [], _, _, _ => .ok trivial
  | _ :: _, _, [], _ => .ok trivial
  | t :: ts, scope, child :: children, entered => by
    obtain ⟨here, others⟩ := List.forall_mem_cons.mp entered
    rw [unparseItems, unparseItems]
    refine (unparse_same t here.1).bind fun _ _ => ?_
    exact (unparseItems_same ts fun child member => (others child member).2).bind fun _ _ => .ok trivial

theorem unparseChosen_same : ∀ (ts : List Term) {scope : Scope} {whole : Term} {node : Tree} {index : Nat}
    {child : Tree},
    EnteredAll (fun inner body tree => Except.SameEnd (enter inner body tree) (enter' inner body tree)) scope ts
      child → Except.SameEnd (unparseChosen enter scope whole node ts index child)
        (unparseChosen enter' scope whole node ts index child)
  | [], _, _, _, _, _, _ => .error (structural_ne_endless _)
  | t :: _, _, _, _, 0, _, entered => by
    rw [unparseChosen, unparseChosen]
    exact unparse_same t entered.1
  | _ :: ts, _, _, _, index + 1, _, entered => by
    rw [unparseChosen, unparseChosen]
    exact unparseChosen_same ts entered.2
end

end Term

/-! ### Conversion to generic trees -/

namespace Generic

theorem add_ends (b : Branch) (name : String) (node : Node) (single : Bool) :
    Except.Ends (lift (b.add name node single)) := by
  rw [Branch.add]
  split
  · exact .ok _
  · split
    · exact .error (structural_ne_endless _)
    · split
      · exact .ok _
      · exact .error (structural_ne_endless _)

theorem addLeaf_ends (counters : Counters) (field : String) (t : Term) (b : Branch) (tree : Tree) :
    Except.Ends (addLeaf counters field t b tree) := by
  cases tree with
  | leaf s => exact add_ends b field (.leaf s) (counters.isSingle field)
  | node tag extra children => exact .error (structural_ne_endless _)
  | elided => exact .error (structural_ne_endless _)

variable {enter enter' : Scope → Term → Tree → Except Error Branch}

mutual
/-- Two ways of collecting the fields of a tree come to the same end if they do for all rules that are entered. -/
theorem collect_same : ∀ (t : Term) {scope : Scope} {counters : Counters} {tree : Tree} {b : Branch},
    t.Entered (fun inner body tree => Except.SameEnd (enter inner body tree) (enter' inner body tree)) scope tree →
      Except.SameEnd (collect enter scope counters t tree b) (collect enter' scope counters t tree b)
  | .literal text, _, counters, tree, b, _ => by
    rw [collect, collect]
    exact (addLeaf_ends counters "" (.literal text) b tree).alike.same
  | .regex pattern, _, counters, tree, b, _ => by
    rw [collect, collect]
    exact (addLeaf_ends counters "" (.regex pattern) b tree).alike.same
  | .backref name default, _, counters, tree, b, _ => by
    rw [collect, collect]
    exact (addLeaf_ends counters name (.backref name default) b tree).alike.same
  | .stack _, _, _, _, _, _ => by
    rw [collect, collect]
    exact .error (structural_ne_endless _)
  | .rule name, _, _, _, b, entered => by
    rw [collect, collect]
    split
    · next body inner found =>
      exact (entered body inner found).bind fun child _ => (add_ends b _ (.branch child) _).alike.same
    · exact .error (unknownRule_ne_endless _)
  | .capture name t, _, _, _, b, entered => by
    rw [collect, collect]
    exact (collect_same t entered).bind fun child _ => (add_ends b name (.branch child) _).alike.same
  | .cut t, _, _, _, _, entered => by
    rw [collect, collect]
    exact collect_same t entered
  | .withRules t rules, _, _, _, _, entered => by
    rw [collect, collect]
    exact collect_same t entered
  | .seq ts, _, _, tree, _, entered => by
    rw [collect, collect]
    refine (Term.nodeChildren_ends (.seq ts) tree).alike.bind fun children opened => ?_
    split
    · exact collectItems_same ts (entered children opened)
    · exact .error (structural_ne_endless _)
  | .choice ts, _, _, tree, _, entered => by
    rw [collect, collect]
    split
    · next index child opened => exact collectChosen_same ts (entered index child opened)
    · next error failed => exact .error (Term.chosen_ends (.choice ts) tree error failed)
  | .quant t min max, _, _, tree, b, entered => by
    rw [collect, collect]
    refine (Term.nodeChildren_ends (.quant t min max) tree).alike.bind fun children opened => ?_
    refine (add_ends b countField (.mark (.count children.length)) false).alike.bind fun b _ => ?_
    exact .foldlM (fun child member b => collect_same t (entered children opened child member)) b
  | .list element separator style, _, _, tree, b, entered => by
    rw [collect, collect]
    refine (Term.listSlots_ends (.list element separator style) tree).alike.bind fun slots opened => ?_
    refine (add_ends b listField (.mark (listMark slots)) false).alike.bind fun b _ => ?_
    exact Term.walkSlots_same (fun slot member b => collect_same element (entered slots opened slot member).1)
      (fun slot member b => collect_same separator (entered slots opened slot member).2) b

theorem collectItems_same : ∀ (ts : List Term) {scope : Scope} {counters : Counters} {children : List Tree}
    {b : Branch}, (∀ child ∈ children, Term.EnteredAll
      (fun inner body tree => Except.SameEnd (enter inner body tree) (enter' inner body tree)) scope ts child) →
      Except.SameEnd (collectItems enter scope counters ts children b)
        (collectItems enter' scope counters ts children b)
  | [], _, _, _, _, _ => .ok trivial
  | _ :: _, _, _, [], _, _ => .ok trivial
  | t :: ts, _, _, _ :: _, _, entered => by
    obtain ⟨here, others⟩ := List.forall_mem_cons.mp entered
    rw [collectItems, collectItems]
    refine (collect_same t here.1).bind fun _ _ => ?_
    exact collectItems_same ts fun child member => (others child member).2

theorem collectChosen_same : ∀ (ts : List Term) {scope : Scope} {counters : Counters} {whole : Term} {node : Tree}
    {chosen index : Nat} {child : Tree} {b : Branch},
    Term.EnteredAll (fun inner body tree => Except.SameEnd (enter inner body tree) (enter' inner body tree)) scope ts
      child → Except.SameEnd (collectChosen enter scope counters whole node chosen ts index child b)
        (collectChosen enter' scope counters whole node chosen ts index child b)
  | [], _, _, _, _, _, _, _, _, _ => .error (structural_ne_endless _)
  | t :: _, _, _, _, _, chosen, 0, _, b, entered => by
    rw [collectChosen, collectChosen]
    refine (add_ends b choiceField (.mark (.choice chosen)) false).alike.bind fun _ _ => ?_
    exact collect_same t entered.1
  | _ :: ts, _, _, _, _, _, index + 1, _, _, entered => by
    rw [collectChosen, collectChosen]
    exact collectChosen_same ts entered.2
end

end Generic

/-! ### Rules of programs -/

namespace Program

variable {p : Program} {rank : Nat → Nat} {P : Scope → Term → Tree → Prop} {n : Nat}

/-- Something is known of the bodies of all rules of a program, for trees that leave room for the slots that rank
below their own: fewer than `n` rules inside each other. -/
def KnownBelow (p : Program) (rank : Nat → Nat) (n : Nat) (P : Scope → Term → Tree → Prop) : Prop :=
  ∀ ⦃name t s outer scope body tree bound⦄, BuiltAt p.draft s (some name) t body → Sees p.draft (s :: outer) scope →
    p.CallsBelow rank bound body → p.slots.length * tree.depth + bound < n → P scope t tree

mutual
/-- What is known of the bodies of rules is known wherever a walk over a tree enters one: at the same node the slot of
the rule ranks lower, and further down there is room for all slots. -/
theorem entered_of_built (ranked : SlotRank p rank) (known : p.KnownBelow rank n P) :
    ∀ (t : Term) {s frames scope label id tree bound}, BuiltAt p.draft s label t id → s.names = innermost frames →
      Sees p.draft frames scope → p.CallsBelow rank bound id → p.slots.length * tree.depth + bound ≤ n →
        t.Entered P scope tree
  | .literal _, _, _, _, _, _, _, _, _, _, _, _, _ => trivial
  | .regex _, _, _, _, _, _, _, _, _, _, _, _, _ => trivial
  | .backref _ _, _, _, _, _, _, _, _, _, _, _, _, _ => trivial
  | .rule name, _, _, scope, _, _, _, _, built, names, sees, calls, enough => by
    intro body inner means
    obtain ⟨slot, found, here⟩ := built
    rw [names] at found
    obtain ⟨t, inner', s, outer, body', means', member, set, made, sees⟩ := sees.find? found
    obtain ⟨rfl, rfl⟩ := Prod.mk.inj (Option.some.inj (means.symm.trans means'))
    obtain ⟨index, lower, calls⟩ := calls.called ranked here member set made.lt_size
    exact known made sees calls (Nat.lt_of_lt_of_le (Nat.add_lt_add_left lower _) enough)
  | .capture _ t, _, _, _, _, _, _, _, built, names, sees, calls, enough => by
    rw [Term.Entered]
    exact entered_of_built ranked known t built names sees calls enough
  | .cut t, _, _, _, _, _, _, _, ⟨_, below, here, built⟩, names, sees, calls, enough => by
    rw [Term.Entered]
    exact entered_of_built ranked known t built names sees (calls.cut here below) enough
  | .withRules t rules, _, _, _, _, _, _, _, ⟨_, opens, table, built⟩, names, sees, calls, enough => by
    rw [Term.Entered]
    exact entered_of_built ranked known t built rfl (.inside sees names opens table) calls enough
  | .seq ts, _, _, _, _, _, _, _, ⟨_, _, built⟩, names, sees, _, enough => by
    intro children opened child member
    exact enteredAll_of_builtItems ranked known ts built names sees
      (descend enough (Term.depth_lt_of_nodeChildren opened member))
  | .choice ts, _, _, _, _, _, _, _, ⟨_, _, built⟩, names, sees, _, enough => by
    intro index child opened
    exact enteredAll_of_builtAll ranked known ts built names sees (descend enough (Term.depth_lt_of_chosen opened))
  | .quant t _ _, _, _, _, _, _, _, _, ⟨inner, _, _, built⟩, names, sees, _, enough => by
    intro children opened child member
    exact entered_of_built ranked known t built names sees (ranked.callsBelow inner)
      (descend enough (Term.depth_lt_of_nodeChildren opened member))
  | .list element separator _, _, _, _, _, _, _, _, ⟨elementId, _, separatorId, _, _, first, second⟩, names, sees, _,
      enough => by
    intro slots opened slot member
    have deeper := descend enough (Term.depth_lt_of_listSlots opened member)
    exact ⟨entered_of_built ranked known element first names sees (ranked.callsBelow elementId) deeper,
      entered_of_built ranked known separator second names sees (ranked.callsBelow separatorId) deeper⟩

theorem enteredAll_of_builtItems (ranked : SlotRank p rank) (known : p.KnownBelow rank n P) :
    ∀ (ts : List Term) {s frames scope whole items tree}, BuiltItems p.draft s whole ts items →
      s.names = innermost frames → Sees p.draft frames scope →
      p.slots.length * tree.depth + p.slots.length ≤ n → Term.EnteredAll P scope ts tree
  | [], _, _, _, _, _, _, _, _, _, _ => trivial
  | t :: ts, _, _, _, _, item :: _, _, ⟨_, _, _, here, others⟩, names, sees, enough =>
    ⟨entered_of_built ranked known t here names sees (ranked.callsBelow item.parser) enough,
      enteredAll_of_builtItems ranked known ts others names sees enough⟩

theorem enteredAll_of_builtAll (ranked : SlotRank p rank) (known : p.KnownBelow rank n P) :
    ∀ (ts : List Term) {s frames scope whole ids tree}, BuiltAll p.draft s whole ts ids →
      s.names = innermost frames → Sees p.draft frames scope →
      p.slots.length * tree.depth + p.slots.length ≤ n → Term.EnteredAll P scope ts tree
  | [], _, _, _, _, _, _, _, _, _, _ => trivial
  | t :: ts, _, _, _, _, id :: _, _, ⟨_, here, others⟩, names, sees, enough =>
    ⟨entered_of_built ranked known t here names sees (ranked.callsBelow id) enough,
      enteredAll_of_builtAll ranked known ts others names sees enough⟩
end

/-- What a rule inside one more is known to do where all rules that it enters do it, all rules of a program do: those
that are entered have room for one fewer. -/
theorem knownBelow_of_step (ranked : SlotRank p rank) {P : Nat → Scope → Term → Tree → Prop}
    (step : ∀ {n scope body tree}, body.Entered (P n) scope tree → P (n + 1) scope body tree) (n : Nat) :
    p.KnownBelow rank n (P n) := by
  induction n with
  | zero =>
    intro _ _ _ _ _ _ _ _ _ _ _ enough
    exact absurd enough (Nat.not_lt_zero _)
  | succ n ih =>
    intro _ t _ _ _ _ _ _ built sees calls enough
    exact step (entered_of_built ranked ih t built rfl sees calls (Nat.le_of_lt_succ enough))

end Program

/-! ### Walks down branches -/

namespace Generic

/-- A computation that ends, and leaves a branch that is no deeper than some depth. -/
abbrev Leaves {α : Type} (depth : Nat) (x : Except Error (α × Branch)) : Prop :=
  Except.Meets (fun found => found.2.depth ≤ depth) (· ≠ .endless) x

/-- Two computations that come to the same end, and leave a branch that is no deeper than some depth. -/
abbrev LeaveAlike {α : Type} (depth : Nat) (x y : Except Error (α × Branch)) : Prop :=
  Except.EndAlike (fun found => found.2.depth ≤ depth) x y

section Pull

variable {depth : Nat} {b : Branch} (low : b.depth ≤ depth)
include low

/-- What is taken out of a branch is less deep than the branch, and what is left is no deeper. -/
theorem pull_leaves (name : String) (single : Bool) :
    Except.Meets (fun found => found.1.depth < depth ∧ found.2.depth ≤ depth) (· ≠ .endless)
      (lift (b.pull name single)) := by
  rw [Branch.pull]
  cases present : b.get? name with
  | none => exact .error (structural_ne_endless _)
  | some field =>
    rcases field with node | _ | ⟨node, nodes⟩
    · cases single with
      | true =>
        refine .ok ⟨?_, Nat.le_trans (depth_erase_le b name) low⟩
        exact Nat.lt_of_lt_of_le (depth_lt_of_value present List.mem_cons_self) low
      | false => exact .error (structural_ne_endless _)
    · exact .error (structural_ne_endless _)
    · cases single with
      | true => exact .error (structural_ne_endless _)
      | false =>
        refine .ok ⟨?_, Nat.le_trans (depth_insert_le present) low⟩
        exact Nat.lt_of_lt_of_le (depth_lt_of_value present List.mem_cons_self) low

theorem pullLeaf_leaves (counters : Counters) (field : String) : Leaves depth (pullLeaf counters field b) := by
  refine (pull_leaves low field (counters.isSingle field)).bind fun (node, b) ⟨_, left⟩ => ?_
  cases node with
  | leaf s => exact .ok left
  | branch fields => exact .error (structural_ne_endless _)
  | mark m => exact .error (structural_ne_endless _)

theorem pullBranch_leaves (counters : Counters) (field : String) :
    Except.Meets (fun found => found.1.depth < depth ∧ found.2.depth ≤ depth) (· ≠ .endless)
      (pullBranch counters field b) := by
  refine (pull_leaves low field (counters.isSingle field)).bind fun (node, b) ⟨inside, left⟩ => ?_
  cases node with
  | branch fields => exact .ok ⟨inside, left⟩
  | leaf s => exact .error (structural_ne_endless _)
  | mark m => exact .error (structural_ne_endless _)

theorem pullMark_leaves (field : String) : Leaves depth (pullMark field b) := by
  refine (pull_leaves low field false).bind fun (node, b) ⟨_, left⟩ => ?_
  cases node with
  | mark m => exact .ok left
  | branch fields => exact .error (structural_ne_endless _)
  | leaf s => exact .error (structural_ne_endless _)

theorem pullChoice_leaves : Leaves depth (pullChoice b) := by
  refine (pullMark_leaves low choiceField).bind fun (m, b) left => ?_
  cases m with
  | choice index => exact .ok left
  | rule name => exact .error (structural_ne_endless _)
  | count n => exact .error (structural_ne_endless _)
  | list terms leading trailing => exact .error (structural_ne_endless _)

theorem pullCount_leaves (min max : Nat) : Leaves depth (pullCount min max b) := by
  refine (pullMark_leaves low countField).bind fun (m, b) left => ?_
  cases m with
  | count n =>
    simp only
    split
    · exact .error (structural_ne_endless _)
    · exact .ok left
  | rule name => exact .error (structural_ne_endless _)
  | choice index => exact .error (structural_ne_endless _)
  | list terms leading trailing => exact .error (structural_ne_endless _)

theorem pullList_leaves : Leaves depth (pullList b) := by
  refine (pullMark_leaves low listField).bind fun (m, b) left => ?_
  cases m with
  | list terms leading trailing =>
    simp only
    split
    · exact .error (structural_ne_endless _)
    · exact .ok left
  | rule name => exact .error (structural_ne_endless _)
  | choice index => exact .error (structural_ne_endless _)
  | count n => exact .error (structural_ne_endless _)

theorem rebuildTimes_leaves {step step' : Branch → Except Error (Tree × Branch)}
    (steps : ∀ {b : Branch}, b.depth ≤ depth → LeaveAlike depth (step b) (step' b)) (n : Nat) :
    LeaveAlike depth (rebuildTimes step n b) (rebuildTimes step' n b) := by
  induction n generalizing b with
  | zero => exact .ok low
  | succ n ih => exact (steps low).bind fun (_, b) left => (ih left).bind fun (_, b) left => .ok left

theorem rebuildSlots_leaves {element separator element' separator' : Branch → Except Error (Tree × Branch)}
    (elements : ∀ {b : Branch}, b.depth ≤ depth → LeaveAlike depth (element b) (element' b))
    (separators : ∀ {b : Branch}, b.depth ≤ depth → LeaveAlike depth (separator b) (separator' b))
    (leading trailing : Bool) (left : Nat) (first : Bool) :
    LeaveAlike depth (rebuildSlots element separator leading trailing left first b)
      (rebuildSlots element' separator' leading trailing left first b) := by
  have here (elided : Bool) {b : Branch} (low : b.depth ≤ depth) :
      LeaveAlike depth (if elided then .ok (.elided, b) else element b)
        (if elided then .ok (.elided, b) else element' b) := by
    split
    · exact .ok low
    · exact elements low
  induction left generalizing first b with
  | zero =>
    rw [rebuildSlots_zero, rebuildSlots_zero]
    exact (here _ low).bind fun (_, b) left => .ok left
  | succ n ih =>
    rw [rebuildSlots_succ, rebuildSlots_succ]
    exact (here _ low).bind fun (_, b) left => (separators left).bind fun (_, b) left =>
      (ih left false).bind fun (_, b) left => .ok left

end Pull

theorem ensureConsumed_ends (b : Branch) : Except.Ends (lift b.ensureConsumed) := by
  rw [Branch.ensureConsumed]
  split
  · exact .error (structural_ne_endless _)
  · exact .ok ()

variable {enter enter' : Scope → Term → String → Branch → Except Error Tree} {depth : Nat}

mutual
/-- Two ways of rebuilding a tree come to the same end if they do for rules with branches further down. -/
theorem rebuild_leaves (below : ∀ scope body name (child : Branch), child.depth < depth →
      Except.SameEnd (enter scope body name child) (enter' scope body name child)) :
    ∀ (t : Term) {scope : Scope} {counters : Counters} {label : Option String} {b : Branch}, b.depth ≤ depth →
      LeaveAlike depth (rebuild enter scope counters label t b) (rebuild enter' scope counters label t b)
  | .literal _, _, counters, _, _, low => by
    rw [rebuild, rebuild]
    exact (pullLeaf_leaves low counters "").alike
  | .regex _, _, counters, _, _, low => by
    rw [rebuild, rebuild]
    exact (pullLeaf_leaves low counters "").alike
  | .backref name _, _, counters, _, _, low => by
    rw [rebuild, rebuild]
    exact (pullLeaf_leaves low counters name).alike
  | .stack _, _, _, _, _, _ => by
    rw [rebuild, rebuild]
    exact .error (structural_ne_endless _)
  | .rule name, _, counters, _, _, low => by
    rw [rebuild, rebuild]
    split
    · next body inner _ =>
      refine (pullBranch_leaves low counters (baseName name)).alike.bind fun (child, b) ⟨inside, left⟩ => ?_
      exact (below inner body name child inside).bind fun _ _ => .ok left
    · exact .error (unknownRule_ne_endless _)
  | .capture name t, _, counters, _, _, low => by
    rw [rebuild, rebuild]
    refine (pullBranch_leaves low counters name).alike.bind fun (child, b) ⟨inside, left⟩ => ?_
    refine (rebuild_leaves below t (Nat.le_of_lt inside)).bind fun (tree, child) _ => ?_
    exact (ensureConsumed_ends child).alike.bind fun _ _ => .ok left
  | .cut t, _, _, _, _, low => by
    rw [rebuild, rebuild]
    exact rebuild_leaves below t low
  | .withRules t _, _, _, _, _, low => by
    rw [rebuild, rebuild]
    exact rebuild_leaves below t low
  | .seq ts, _, _, _, _, low => by
    rw [rebuild, rebuild]
    exact (rebuildItems_leaves below ts low).bind fun (_, b) left => .ok left
  | .choice ts, _, _, _, _, low => by
    rw [rebuild, rebuild]
    refine (pullChoice_leaves low).alike.bind fun (index, b) left => ?_
    exact (rebuildChosen_leaves below ts left).bind fun (_, b) left => .ok left
  | .quant t min max, _, _, _, _, low => by
    rw [rebuild, rebuild]
    refine (pullCount_leaves low min max).alike.bind fun (n, b) left => ?_
    exact (rebuildTimes_leaves left (rebuild_leaves below t) n).bind fun (_, b) left => .ok left
  | .list element separator style, _, _, _, _, low => by
    rw [rebuild, rebuild]
    refine (pullList_leaves low).alike.bind fun ((terms, leading, trailing), b) left => ?_
    exact (rebuildSlots_leaves left (rebuild_leaves below element) (rebuild_leaves below separator) leading trailing
      (terms - 1) true).bind fun (_, b) left => .ok left

theorem rebuildItems_leaves (below : ∀ scope body name (child : Branch), child.depth < depth →
      Except.SameEnd (enter scope body name child) (enter' scope body name child)) :
    ∀ (ts : List Term) {scope : Scope} {counters : Counters} {b : Branch}, b.depth ≤ depth →
      LeaveAlike depth (rebuildItems enter scope counters ts b) (rebuildItems enter' scope counters ts b)
  | [], _, _, _, low => .ok low
  | t :: ts, _, _, _, low => by
    rw [rebuildItems, rebuildItems]
    refine (rebuild_leaves below t low).bind fun (tree, b) left => ?_
    exact (rebuildItems_leaves below ts left).bind fun (trees, b) left => .ok left

theorem rebuildChosen_leaves (below : ∀ scope body name (child : Branch), child.depth < depth →
      Except.SameEnd (enter scope body name child) (enter' scope body name child)) :
    ∀ (ts : List Term) {scope : Scope} {counters : Counters} {chosen count index : Nat} {b : Branch},
      b.depth ≤ depth → LeaveAlike depth (rebuildChosen enter scope counters chosen count ts index b)
        (rebuildChosen enter' scope counters chosen count ts index b)
  | [], _, _, _, _, _, _, _ => .error (structural_ne_endless _)
  | t :: _, _, _, _, _, 0, _, low => by
    rw [rebuildChosen, rebuildChosen]
    exact rebuild_leaves below t low
  | _ :: ts, _, _, _, _, index + 1, _, low => by
    rw [rebuildChosen, rebuildChosen]
    exact rebuildChosen_leaves below ts low
end

/-- Rebuilding the tree of a rule comes to one end, through however many branches it may go, if it may go through more
than there are. -/
theorem toRule_same {n m : Nat} {scope : Scope} {body : Term} {name : String} {b : Branch} (enough : b.depth < n)
    (enough' : b.depth < m) : Except.SameEnd (toRule n scope body name b) (toRule m scope body name b) := by
  induction n generalizing m scope body name b with
  | zero => exact absurd enough (Nat.not_lt_zero _)
  | succ n ih =>
    obtain ⟨m, rfl⟩ := Nat.exists_eq_succ_of_ne_zero (Nat.ne_zero_of_lt enough')
    have below (scope : Scope) (body : Term) (name : String) (child : Branch) (inside : child.depth < b.depth) :
        Except.SameEnd (toRule n scope body name child) (toRule m scope body name child) :=
      ih (Nat.lt_of_lt_of_le inside (Nat.le_of_lt_succ enough)) (Nat.lt_of_lt_of_le inside (Nat.le_of_lt_succ enough'))
    refine (rebuild_leaves below body (Nat.le_refl _)).bind fun (tree, left) _ => ?_
    exact (ensureConsumed_ends left).alike.bind fun _ _ => .ok trivial

end Generic

/-- Converting a generic tree ends, in any grammar without stacks. -/
theorem Grammar.flatOfGeneric_ends (g : Grammar) (b : Generic.Branch) : Except.Ends (g.flatOfGeneric b) := by
  refine (Generic.pull_leaves (Nat.le_refl b.depth) Generic.ruleField true).bind_failsOnly
    fun (node, root) ⟨_, left⟩ => ?_
  match node with
  | .mark (.rule rule) =>
    dsimp only
    split
    · exact (Generic.toRule_same (Nat.lt_succ_of_le left) (Nat.lt_succ_of_le left)).ends
    · exact .error (unknownRule_ne_endless _)
  | .mark (.choice _) => exact .error (structural_ne_endless _)
  | .mark (.count _) => exact .error (structural_ne_endless _)
  | .mark (.list _ _ _) => exact .error (structural_ne_endless _)
  | .leaf _ => exact .error (structural_ne_endless _)
  | .branch _ => exact .error (structural_ne_endless _)

/-- Converting a generic tree ends, in any grammar. -/
theorem Grammar.ofGeneric_ends (g : Grammar) (b : Generic.Branch) : Except.Ends (g.ofGeneric b) := by
  rw [Grammar.ofGeneric]
  cases g.eliminateStacks with
  | error e => exact .error (structural_ne_endless e)
  | ok flat => exact flat.flatOfGeneric_ends b

/-! ### Compiled grammars -/

namespace Parsers

open Relation

variable {g : Grammar} {options : CompileOptions} {p : Parsers}

/-- **Induction over walks.**  What a rule inside one more does where all rules that it enters do it, every rule of a
validated grammar does with any tree, inside as many as a walk is allowed. -/
theorem walk_induction (compiled : g.compile options = .ok p) (validated : options.validate = true)
    {P : Nat → Scope → Term → Tree → Prop}
    (step : ∀ {n scope body tree}, body.Entered (P n) scope tree → P (n + 1) scope body tree) {rule : String}
    {body : Term} (found : (if rule = paddingRule then none else p.flat.get? rule) = some body) (tree : Tree) :
    P (p.flat.walkFuel tree) [p.flat] body tree := by
  obtain ⟨_, -, -, -, checks⟩ := Grammar.compile_ok compiled
  obtain ⟨rank, ranked⟩ := Program.exists_slotRank (checks validated).2
  split at found
  · cases found
  next named =>
  have defined : rule ∈ p.flat.names := Table.lookup_isSome.mp (Option.isSome_of_eq_some found)
  obtain ⟨slot, starts⟩ := exists_slot compiled defined named
  obtain ⟨t, s, made, -, found', -, -, built, sees⟩ := start_of_rule compiled starts
  obtain rfl := Option.some.inj (found.symm.trans found')
  exact Program.knownBelow_of_step (P := P) ranked step (p.flat.walkFuel tree) built sees (ranked.callsBelow made)
    (slots_lt_walkFuel compiled tree)

/-- Writing out a tree comes to one end, through however many rules inside each other it may go, if they are no fewer
than it is allowed. -/
theorem unparseRule_same (compiled : g.compile options = .ok p) (validated : options.validate = true) {rule : String}
    {body : Term} (found : p.rule? rule = some body) (tree : Tree) {n : Nat} (enough : p.flat.walkFuel tree ≤ n) :
    Except.SameEnd (Term.unparseRule (p.flat.walkFuel tree) [p.flat] body tree)
      (Term.unparseRule n [p.flat] body tree) := by
  refine walk_induction (P := fun n scope body tree => ∀ m, n ≤ m →
    Except.SameEnd (Term.unparseRule n scope body tree) (Term.unparseRule m scope body tree)) compiled validated
    (fun {n scope body tree} entered m more => ?_) found tree n enough
  obtain ⟨m, rfl⟩ := Nat.exists_eq_succ_of_ne_zero (Nat.ne_zero_of_lt more)
  exact Term.unparse_same body (entered.mono fun known => known m (Nat.le_of_succ_le_succ more))

/-- The same of converting a tree. -/
theorem ofRule_same (compiled : g.compile options = .ok p) (validated : options.validate = true) {rule : String}
    {body : Term} (found : p.rule? rule = some body) (tree : Tree) {n : Nat} (enough : p.flat.walkFuel tree ≤ n) :
    Except.SameEnd (Generic.ofRule (p.flat.walkFuel tree) [p.flat] body tree)
      (Generic.ofRule n [p.flat] body tree) := by
  refine walk_induction (P := fun n scope body tree => ∀ m, n ≤ m →
    Except.SameEnd (Generic.ofRule n scope body tree) (Generic.ofRule m scope body tree)) compiled validated
    (fun {n scope body tree} entered m more => ?_) found tree n enough
  obtain ⟨m, rfl⟩ := Nat.exists_eq_succ_of_ne_zero (Nat.ne_zero_of_lt more)
  exact Generic.collect_same body (entered.mono fun known => known m (Nat.le_of_succ_le_succ more))

/-- Writing out a tree ends, whatever tree it is. -/
theorem unparse_ends (compiled : g.compile options = .ok p) (validated : options.validate = true) (rule : String)
    (tree : Tree) : Except.Ends (p.unparse rule tree) := by
  rw [unparse, Grammar.unparse]
  split
  · next body found => exact (unparseRule_same compiled validated found tree (Nat.le_refl _)).ends.map _
  · exact .error (unknownRule_ne_endless _)

/-- Converting a tree ends, whatever tree it is. -/
theorem toGeneric_ends (compiled : g.compile options = .ok p) (validated : options.validate = true) (rule : String)
    (tree : Tree) : Except.Ends (p.toGeneric rule tree) := by
  rw [toGeneric, Grammar.flatToGeneric]
  split
  · next body found =>
    exact (ofRule_same compiled validated found tree (Nat.le_refl _)).ends.bind
      fun root _ => Generic.add_ends root _ _ _
  · exact .error (unknownRule_ne_endless _)

/-- Converting a generic tree ends, in any compiled grammar. -/
theorem ofGeneric_ends (p : Parsers) (b : Generic.Branch) : Except.Ends (p.ofGeneric b) :=
  p.flat.flatOfGeneric_ends b

/-- In a validated grammar there is no way to enter rules for ever, whatever rule and tree a walk begins with. -/
theorem chains_end (compiled : g.compile options = .ok p) (validated : options.validate = true) {rule : String}
    {body : Term} (found : p.rule? rule = some body) (tree : Tree) : RuleEntry.Ends ⟨([p.flat], body), tree⟩ :=
  walk_induction (P := fun _ scope body tree => RuleEntry.Ends ⟨(scope, body), tree⟩) compiled validated
    (fun entered => .intro _ (Term.entered_iff.mp entered)) found tree

/-- **Walks end.**  In a validated grammar writing out and converting any tree by any rule comes to an end, which is the
same through however many more rules inside each other a walk may go.  There is no way to enter rules for ever, whatever
rule and tree a walk begins with, and no rule that a walk enters leads back to itself, in the same scope, before the
tree has been opened.  Converting a generic tree comes to an end in any grammar, through however many more branches. -/
theorem walks_end (compiled : g.compile options = .ok p) (validated : options.validate = true) :
    (∀ rule tree, p.unparse rule tree ≠ .error .endless ∧ p.toGeneric rule tree ≠ .error .endless) ∧
      (∀ rule body, p.rule? rule = some body → ∀ tree,
        (∀ n, p.flat.walkFuel tree ≤ n →
          Term.unparseRule n [p.flat] body tree = Term.unparseRule (p.flat.walkFuel tree) [p.flat] body tree ∧
          Generic.ofRule n [p.flat] body tree = Generic.ofRule (p.flat.walkFuel tree) [p.flat] body tree) ∧
        RuleEntry.Ends ⟨([p.flat], body), tree⟩ ∧
        ∀ entry, ReflTransGen RuleEntry.Enters ⟨([p.flat], body), tree⟩ entry →
          ¬ TransGen RuleSite.Passes entry.site entry.site) ∧
      (∀ (q : Parsers) b, q.ofGeneric b ≠ .error .endless) ∧ (∀ (g' : Grammar) b, g'.ofGeneric b ≠ .error .endless) ∧
      ∀ scope body name (b : Generic.Branch) n, b.depth < n →
        Generic.toRule n scope body name b = Generic.toRule (b.depth + 1) scope body name b := by
  refine ⟨fun rule tree => ?_, fun rule body found tree => ⟨fun n enough => ⟨?_, ?_⟩, ?_, fun entry way => ?_⟩,
    fun q b => (q.ofGeneric_ends b).ne, fun g' b => (g'.ofGeneric_ends b).ne, fun _ _ _ b n enough => ?_⟩
  · exact ⟨(unparse_ends compiled validated rule tree).ne, (toGeneric_ends compiled validated rule tree).ne⟩
  · exact (unparseRule_same compiled validated found tree enough).eq.symm
  · exact (ofRule_same compiled validated found tree enough).eq.symm
  · exact chains_end compiled validated found tree
  · exact ((chains_end compiled validated found tree).of_reflTransGen way).not_transGen
  · exact (Generic.toRule_same enough (Nat.lt_succ_self _)).eq

/-- Items that are words or pairs in brackets, by way of a local rule. -/
def bracketedPairs : Grammar :=
  ⟨[("pair", .withRules (.capture "left" (.rule "item")) ⟨[("item", .cut (.rule "word"))]⟩),
    ("word", .choice [.seq [.literal "(", .rule "pair", .literal ")"], .regex "[a-z]+"])]⟩

theorem walks_end_bracketedPairs : ∃ p body item word, bracketedPairs.compile {} = .ok p ∧
    p.rule? "pair" = some body ∧ RuleSite.Passes ([p.flat], body) item ∧ RuleSite.Passes item word ∧
    ¬ TransGen RuleSite.Passes word word ∧ p.unparse "pair" .elided ≠ .error .endless ∧
    p.toGeneric "pair" .elided ≠ .error .endless := by
  have runs : (bracketedPairs.compile {}).toOption.any (fun p => p.flat == bracketedPairs) = true := by
    decide +kernel
  obtain ⟨p, compiled, flat⟩ := Except.exists_of_any runs
  have flat : p.flat = bracketedPairs := eq_of_beq flat
  have rule : p.rule? "pair"
      = some (.withRules (.capture "left" (.rule "item")) ⟨[("item", .cut (.rule "word"))]⟩) := by
    rw [Parsers.rule?, flat]
    rfl
  have first : RuleSite.Passes ([p.flat], .withRules (.capture "left" (.rule "item")) ⟨[("item", .cut (.rule "word"))]⟩)
      ([⟨[("item", .cut (.rule "word"))]⟩, p.flat], .cut (.rule "word")) :=
    .withRules (.capture (.rule rfl))
  have second : RuleSite.Passes ([⟨[("item", .cut (.rule "word"))]⟩, p.flat], .cut (.rule "word"))
      ([p.flat], .choice [.seq [.literal "(", .rule "pair", .literal ")"], .regex "[a-z]+"]) := by
    rw [flat]
    exact .cut (.rule rfl)
  obtain ⟨ends, chains, -⟩ := walks_end compiled rfl
  refine ⟨p, _, _, _, compiled, rule, first, second, ?_, ends "pair" .elided⟩
  exact (chains "pair" _ rule .elided).2.2 ⟨_, .elided⟩ (.tail (.single (first.enters .elided)) (second.enters .elided))

end Parsers
end GrammarKit
