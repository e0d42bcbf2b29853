/-
Module: GrammarKit.Proofs.WrittenLeaves
Purpose: Writing out never garbles a tree.  Whatever tree is given to whatever rule, if it is written out at all, then
  as its leaves from left to right: a walk goes through all children of a node once and in order, and the slots that
  it takes out of a list have the leaves of the list, however its groups have been put together.
Main exports: Term.Faithful, Term.chars_of_unparse, Term.faithful_unparseRule, Parsers.unparse_eq_text
-/
import GrammarKit.Parsers
import GrammarKit.Proofs.Derivation
import GrammarKit.Proofs.Results

namespace GrammarKit

/-- The slots of a list have the characters of the list. -/
theorem Tree.chars_slots {tree : Tree} {slots : List Tree} (taken : tree.slots? = some slots) :
    tree.chars = slots.flatMap Tree.chars := by
  rw [Tree.chars, ← Tree.leavesAll_slots taken, Tree.leavesAll_eq_flatMap, List.flatMap_assoc]
  rfl

namespace Term

variable {t : Term} {tree : Tree}

/-! ### Opening a tree -/

theorem chars_of_unparseLeaf {text : List Char} (written : unparseLeaf t tree = .ok text) : text = tree.chars := by
  cases tree with
  | leaf s =>
    cases written
    exact (Tree.chars_leaf s).symm
  | node _ _ _ => cases written
  | elided => cases written

theorem chars_of_nodeChildren {children : List Tree} (opened : nodeChildren t tree = .ok children) :
    tree.chars = children.flatMap Tree.chars := by
  cases tree with
  | node tag extra inner =>
    cases opened
    exact Tree.chars_node tag extra _
  | leaf _ => cases opened
  | elided => cases opened

theorem chars_of_chosen {index : Nat} {child : Tree} (opened : chosen t tree = .ok (index, child)) :
    tree.chars = child.chars := by
  obtain ⟨children, inner, opened⟩ := Except.bind_eq_ok opened
  split at opened
  · cases opened
    rw [chars_of_nodeChildren inner, List.flatMap_singleton]
  · cases opened

theorem chars_of_listSlots {slots : List Tree} (opened : listSlots t tree = .ok slots) :
    tree.chars = slots.flatMap Tree.chars := by
  obtain ⟨_, -, opened⟩ := Except.bind_eq_ok opened
  split at opened
  · next found =>
    cases opened
    exact Tree.chars_slots found
  · cases opened

/-! ### Writing several trees -/

/-- What is written for a tree are the characters of its leaves. -/
def Spells (write : Tree → Except Error (List Char)) : Prop :=
  ∀ {tree text}, write tree = .ok text → text = tree.chars

variable {write write' : Tree → Except Error (List Char)}

theorem Spells.mapM (spells : Spells write) {trees : List Tree} {texts : List (List Char)}
    (written : trees.mapM write = .ok texts) : texts.flatten = trees.flatMap Tree.chars := by
  induction trees generalizing texts with
  | nil =>
    cases written
    rfl
  | cons tree trees ih =>
    rw [List.mapM_cons] at written
    obtain ⟨text, here, written⟩ := Except.bind_eq_ok written
    obtain ⟨others, rest, written⟩ := Except.bind_eq_ok written
    cases written
    rw [List.flatten_cons, List.flatMap_cons, spells here, ih rest]

/-- The slots of a list are written one after the other, and what is elided has no characters.  The texts are collected
with the last one first. -/
theorem Spells.walkSlots (spells : Spells write) (spells' : Spells write') {slots : List Tree}
    {texts texts' : List (List Char)}
    (walked : walkSlots (fun slot texts => (write slot).map (· :: texts))
      (fun slot texts => (write' slot).map (· :: texts)) slots texts = .ok texts') :
    texts'.reverse.flatten = texts.reverse.flatten ++ slots.flatMap Tree.chars := by
  -- elements and separators take turns, so the two ways of writing change places in each step
  induction slots generalizing texts write write' with
  | nil =>
    cases walked
    rw [List.flatMap_nil, List.append_nil]
  | cons slot slots ih =>
    by_cases skipped : slot = .elided
    · subst skipped
      rw [Tree.walkSlots_elided] at walked
      exact ih spells' spells walked
    · rw [Tree.walkSlots_present _ _ _ _ skipped] at walked
      obtain ⟨_, put, rest⟩ := Except.bind_eq_ok walked
      obtain ⟨text, here, rfl⟩ := Except.map_eq_ok put
      rw [ih spells' spells rest, spells here, List.reverse_cons, List.flatten_append, List.flatMap_cons]
      simp

/-! ### Walks -/

/-- Whatever rule is entered, what is written for a tree are the characters of its leaves. -/
def Faithful (enter : Scope → Term → Tree → Except Error (List Char)) : Prop :=
  ∀ scope body, Spells (enter scope body)

section Unparse

variable {enter : Scope → Term → Tree → Except Error (List Char)}

mutual
/-- A term that writes out a tree writes the characters of its leaves. -/
theorem chars_of_unparse (faithful : Faithful enter) : ∀ (t : Term) {scope : Scope} {tree : Tree} {text : List Char},
    unparse enter scope t tree = .ok text → text = tree.chars
  | literal _, _, _, _, written => by
    rw [unparse] at written
    exact chars_of_unparseLeaf written
  | regex _, _, _, _, written => by
    rw [unparse] at written
    exact chars_of_unparseLeaf written
  | backref _ _, _, _, _, written => by
    rw [unparse] at written
    exact chars_of_unparseLeaf written
  | rule name, scope, _, _, written => by
    rw [unparse] at written
    split at written
    · next body inner _ => exact faithful inner body written
    · cases written
  | capture _ t, _, _, _, written => by
    rw [unparse] at written
    exact chars_of_unparse faithful t written
  | cut t, _, _, _, written => by
    rw [unparse] at written
    exact chars_of_unparse faithful t written
  | withRules t _, _, _, _, written => by
    rw [unparse] at written
    exact chars_of_unparse faithful t written
  | seq ts, _, _, _, written => by
    rw [unparse] at written
    obtain ⟨children, opened, written⟩ := Except.bind_eq_ok written
    split at written
    · next length =>
      rw [chars_of_nodeChildren opened]
      exact chars_of_unparseItems faithful ts length written
    · cases written
  | choice ts, _, _, _, written => by
    rw [unparse] at written
    split at written
    · next opened =>
      rw [chars_of_chosen opened]
      exact chars_of_unparseChosen faithful ts written
    · cases written
  | quant t _ _, _, _, _, written => by
    rw [unparse] at written
    obtain ⟨children, opened, written⟩ := Except.bind_eq_ok written
    obtain ⟨texts, each, written⟩ := Except.bind_eq_ok written
    cases written
    rw [chars_of_nodeChildren opened]
    exact Spells.mapM (fun h => chars_of_unparse faithful t h) each
  | list element separator _, _, _, _, written => by
    rw [unparse] at written
    obtain ⟨slots, opened, written⟩ := Except.bind_eq_ok written
    obtain ⟨texts, walked, written⟩ := Except.bind_eq_ok written
    cases written
    rw [chars_of_listSlots opened]
    exact Spells.walkSlots (fun h => chars_of_unparse faithful element h)
      (fun h => chars_of_unparse faithful separator h) walked
  | stack _, _, _, _, written => by
    rw [unparse] at written
    cases written

/-- As many items as there are children leave none of the children out. -/
theorem chars_of_unparseItems (faithful : Faithful enter) : ∀ (ts : List Term) {scope : Scope} {children : List Tree}
    {text : List Char}, children.length = ts.length → unparseItems enter scope ts children = .ok text →
      text = children.flatMap Tree.chars
  | [], _, [], _, _, written => by
    cases written
    rfl
  | t :: ts, _, child :: children, _, length, written => by
    rw [unparseItems] at written
    obtain ⟨first, here, written⟩ := Except.bind_eq_ok written
    obtain ⟨others, rest, written⟩ := Except.bind_eq_ok written
    cases written
    rw [List.flatMap_cons, chars_of_unparse faithful t here,
      chars_of_unparseItems faithful ts (Nat.succ.inj length) rest]

theorem chars_of_unparseChosen (faithful : Faithful enter) : ∀ (ts : List Term) {scope : Scope} {whole : Term}
    {node : Tree} {index : Nat} {child : Tree} {text : List Char},
      unparseChosen enter scope whole node ts index child = .ok text → text = child.chars
  | [], _, _, _, _, _, _, written => by cases written
  | t :: _, _, _, _, 0, _, _, written => by
    rw [unparseChosen] at written
    exact chars_of_unparse faithful t written
  | _ :: ts, _, _, _, _ + 1, _, _, written => by
    rw [unparseChosen] at written
    exact chars_of_unparseChosen faithful ts written
end

end Unparse

/-- Through any number of rules, what is written for a tree are the characters of its leaves. -/
theorem faithful_unparseRule (n : Nat) : Faithful (unparseRule n) := by
  induction n with
  | zero => exact fun _ _ {_ _} written => nomatch written
  | succ n ih => exact fun _ body {_ _} written => chars_of_unparse ih body written

end Term

namespace Parsers

/-- **Writing out keeps every leaf.**  If a tree, wherever it comes from, is written out by a rule, then as the texts
of its leaves from left to right, each leaf once. -/
theorem unparse_eq_text {p : Parsers} {rule : String} {tree : Tree} {text : String}
    (written : p.unparse rule tree = .ok text) : text = tree.text := by
  rw [unparse, Grammar.unparse] at written
  split at written
  · next body _ =>
    obtain ⟨chars, walked, rfl⟩ := Except.map_eq_ok written
    rw [Tree.text, Term.faithful_unparseRule _ _ body walked]
  · cases written

/-- Sums of digits that group to the left. -/
def digitSums : Grammar :=
  ⟨[("sum", .list (.regex "[0-9]") (.literal "+") { assoc := .leftToRight })]⟩

/-- A sum put together by hand, out of three texts: it was never parsed. -/
def handMade : Tree :=
  let leaf (text : String) : Tree := .leaf (.ofText text)
  .node "sum" (some (.list ⟨.leftToRight, 3⟩))
    [.node "sum" (some (.list ⟨.leftToRight, 2⟩)) [leaf "seven", leaf "-", .elided], leaf "+", leaf "1"]

theorem unparse_eq_text_handMade : ∃ p, digitSums.compile {} = .ok p ∧
    p.unparse "sum" handMade = .ok "seven-+1" ∧ "seven-+1" = handMade.text := by
  have runs : (digitSums.compile {} >>= fun p => p.unparse "sum" handMade).toOption = some "seven-+1" := by
    decide +kernel
  cases result : digitSums.compile {} >>= fun p => p.unparse "sum" handMade with
  | error e =>
    rw [result] at runs
    cases runs
  | ok text =>
    rw [result] at runs
    cases runs
    obtain ⟨p, compiled, written⟩ := Except.bind_eq_ok result
    exact ⟨p, compiled, written, unparse_eq_text written⟩

end Parsers
end GrammarKit
