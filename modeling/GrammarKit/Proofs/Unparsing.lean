/-
Module: GrammarKit.Proofs.Unparsing
Purpose: The text that is written out for a tree.  A tree that conforms to a term is written out as the
  characters of its leaves, and where no terminal skips or hides anything, a derived tree has exactly the
  characters that were taken from the input.
Main exports: Term.unparse_of_shaped, Term.unparseRule_of_shaped, Derives.chars_append
-/
import GrammarKit.Proofs.Conformance

namespace GrammarKit
namespace Term

/-! ### Walks over children -/

theorem mapM_eq_ok {α β ε : Type} {f : α → Except ε β} {g : α → β} :
    ∀ {as : List α}, (∀ a ∈ as, f a = .ok (g a)) → as.mapM f = .ok (as.map g)
  | [], _ => rfl
  | a :: as, each => by
    have here := each a List.mem_cons_self
    have others := mapM_eq_ok fun a member => each a (List.mem_cons_of_mem _ member)
    rw [List.mapM_cons, here, others]
    rfl

/-- The texts of the slots of a list are put together, the last one first. -/
theorem walkSlots_of_fits {write write' : Tree → Except Error (List Char)} {E S : Tree → Prop}
    (elements : ∀ {slot}, E slot → slot ≠ .elided ∧ write slot = .ok slot.chars)
    (separators : ∀ {slot}, S slot → slot ≠ .elided ∧ write' slot = .ok slot.chars)
    {leading trailing first : Bool} {left : Nat} {slots : List Tree}
    (fits : Fits (slotPattern E S (· = .elided) leading trailing left first) slots)
    (texts : List (List Char)) :
    ∃ texts', walkSlots (fun slot texts => (write slot).map (· :: texts))
        (fun slot texts => (write' slot).map (· :: texts)) slots texts = .ok texts' ∧
      texts'.reverse.flatten = texts.reverse.flatten ++ slots.flatMap Tree.chars := by
  have slot_written : ∀ {left : Bool} {slot : Tree}, (if left then (· = .elided) else E) slot →
      ∀ (other : Tree → List (List Char) → Except Error (List (List Char))) (rest : List Tree)
        (texts : List (List Char)), ∃ texts',
        walkSlots (fun slot texts => (write slot).map (· :: texts)) other (slot :: rest) texts
            = walkSlots other (fun slot texts => (write slot).map (· :: texts)) rest texts' ∧
          texts'.reverse.flatten = texts.reverse.flatten ++ slot.chars := by
    intro left slot here other rest texts
    cases left with
    | true =>
      obtain rfl := here
      exact ⟨texts, rfl, by simp⟩
    | false =>
      obtain ⟨present, written⟩ := elements here
      refine ⟨slot.chars :: texts, ?_, by simp⟩
      rw [Tree.walkSlots_present _ _ _ _ present, written]
      rfl
  induction left generalizing first slots texts with
  | zero =>
    match slots, fits with
    | [slot], ⟨here, _⟩ =>
      obtain ⟨texts', walked, same⟩ := slot_written here (fun slot texts => (write' slot).map (· :: texts)) [] texts
      exact ⟨texts', walked, by simpa using same⟩
  | succ left ih =>
    match slots, fits with
    | slot :: between :: slots, ⟨here, separated, fits⟩ =>
      obtain ⟨present, written⟩ := separators separated
      obtain ⟨texts₁, walked, same⟩ := slot_written here (fun slot texts => (write' slot).map (· :: texts))
        (between :: slots) texts
      obtain ⟨texts₂, walked', same'⟩ := ih fits (between.chars :: texts₁)
      refine ⟨texts₂, ?_, ?_⟩
      · rw [walked, Tree.walkSlots_present _ _ _ _ present, written]
        exact walked'
      · simp [same', same]

/-! ### Trees as texts -/

section Unparse

variable {n : Nat}

/-- Whatever rules are entered, their trees are written out as their leaves. -/
def RulesWritten (n : Nat) : Prop :=
  ∀ {scope body name tree}, ShapedRule n scope body name tree →
    tree ≠ .elided ∧ unparseRule n scope body tree = .ok tree.chars

mutual
/-- A tree that conforms to a term is written out as its leaves. -/
theorem unparse_of_shaped (rules : RulesWritten n) : ∀ (t : Term) {scope : Scope} {label : Option String}
    {tree : Tree}, Shaped (ShapedRule n) scope label t tree →
      unparse (unparseRule n) scope t tree = .ok tree.chars
  | .literal _, _, _, _, ⟨_, rfl⟩ => by rw [unparse, unparseLeaf, Tree.chars_leaf]
  | .regex _, _, _, _, ⟨_, rfl⟩ => by rw [unparse, unparseLeaf, Tree.chars_leaf]
  | .backref _ _, _, _, _, ⟨_, rfl⟩ => by rw [unparse, unparseLeaf, Tree.chars_leaf]
  | .rule _, _, _, _, ⟨_, _, found, inside⟩ => by
    rw [unparse, found]
    exact (rules inside).2
  | .capture _ t, _, _, _, h => by
    rw [Shaped] at h
    rw [unparse]
    exact unparse_of_shaped rules t h
  | .cut t, _, _, _, h => by
    rw [Shaped] at h
    rw [unparse]
    exact unparse_of_shaped rules t h
  | .withRules t _, _, _, _, h => by
    rw [Shaped] at h
    rw [unparse]
    exact unparse_of_shaped rules t h
  | .seq ts, _, _, _, ⟨children, rfl, items⟩ => by
    rw [unparse]
    show (if _ then _ else _) = _
    rw [if_pos items.length_eq, unparseItems_of_shaped rules ts items, Tree.chars_node]
  | .choice ts, _, _, _, ⟨index, child, rfl, chosen⟩ => by
    rw [unparse]
    show unparseChosen _ _ _ _ ts index child = _
    rw [unparseChosen_of_shaped rules ts chosen, Tree.chars_node, List.flatMap_singleton]
  | .quant t _ _, scope, _, _, ⟨children, rfl, _, _, each⟩ => by
    have written := mapM_eq_ok fun child member => unparse_of_shaped rules t (each child member)
    rw [unparse]
    show (children.mapM (unparse (unparseRule n) scope t) >>= _) = _
    rw [written, Tree.chars_node, List.flatMap]
    rfl
  | .list element separator _, _, _, _, ⟨_, _, _, slots, rfl, _, fits⟩ => by
    obtain ⟨texts, walked, same⟩ := walkSlots_of_fits
      (fun h => ⟨h.ne_elided fun h => (rules h).1, unparse_of_shaped rules element h⟩)
      (fun h => ⟨h.ne_elided fun h => (rules h).1, unparse_of_shaped rules separator h⟩) fits []
    rw [unparse, Tree.listSlots_ofSlots _ _ _ fits.length_slots, Tree.chars_ofSlots _ _ fits.length_slots]
    show (walkSlots _ _ slots [] >>= _) = _
    rw [walked]
    exact congrArg Except.ok same
  | .stack _, _, _, _, h => h.elim

theorem unparseItems_of_shaped (rules : RulesWritten n) : ∀ (ts : List Term) {scope : Scope}
    {children : List Tree}, ShapedItems (ShapedRule n) scope ts children →
      unparseItems (unparseRule n) scope ts children = .ok (children.flatMap Tree.chars)
  | [], _, [], _ => rfl
  | t :: ts, _, child :: children, ⟨here, others⟩ => by
    rw [unparseItems, unparse_of_shaped rules t here, unparseItems_of_shaped rules ts others]
    rfl

theorem unparseChosen_of_shaped (rules : RulesWritten n) : ∀ (ts : List Term) {scope : Scope}
    {whole : Term} {node : Tree} {index : Nat} {child : Tree},
      ShapedChosen (ShapedRule n) scope ts index child →
        unparseChosen (unparseRule n) scope whole node ts index child = .ok child.chars
  | t :: _, _, _, _, 0, _, h => by
    rw [unparseChosen]
    exact unparse_of_shaped rules t h
  | _ :: ts, _, _, _, _ + 1, _, h => by
    rw [unparseChosen]
    exact unparseChosen_of_shaped rules ts h
end

/-- A tree that conforms to the body of a rule is written out as its leaves. -/
theorem unparseRule_of_shaped (n : Nat) : RulesWritten n := by
  induction n with
  | zero => exact fun h => h.elim
  | succ n ih => exact fun {_ body _ _} h => ⟨h.ne_elided, unparse_of_shaped ih body h⟩

end Unparse
end Term

/-! ### Trees and what was taken -/

/-- A terminal that puts out all that it matches. -/
def Terminal.Whole (t : Terminal) : Prop :=
  ∀ ⦃s m⦄, t.regex.match? s = some m → m.output = m.whole

/-- All terminals of a program put out what they match. -/
def Program.Whole (p : Program) : Prop :=
  ∀ ⦃id : ParserId⦄ ⦃label : Option String⦄ ⦃t : Terminal⦄,
    p.parsers[id]? = some ⟨label, .terminal t⟩ → t.Whole

theorem Regex.whole_append {re : Regex} {s : Slice} {m : Regex.Match} (h : re.match? s = some m) :
    m.whole.chars ++ m.rest.chars = s.chars := by
  simp only [match?, Option.map_eq_some_iff] at h
  obtain ⟨⟨length, slots⟩, -, rfl⟩ := h
  exact List.take_append_drop length s.chars

variable {p : Program}

mutual
/-- The characters of a derived tree are those that were taken, if all terminals put out what they
match. -/
theorem Derives.chars_append (whole : p.Whole) : ∀ {id s tree rest}, Derives p id s tree rest →
    tree.chars ++ rest.chars = s.chars
  | _, _, _, _, .terminal here found => by
    rw [Tree.chars_leaf, whole here found]
    exact Regex.whole_append found
  | _, _, _, _, .call _ d => d.chars_append whole
  | _, _, _, _, .cut _ d => d.chars_append whole
  | _, _, _, _, .seq _ ds => by
    rw [Tree.chars_node]
    exact ds.chars_append whole
  | _, _, _, _, .choice _ _ d => by
    rw [Tree.chars_node, List.flatMap_singleton]
    exact d.chars_append whole
  | _, _, _, _, .quant _ _ _ ds => by
    rw [Tree.chars_node]
    exact ds.chars_append whole
  | _, _, _, _, .list _ _ _ _ ds => by
    rw [Tree.chars_ofSlots _ _ ds.length_slots]
    exact ds.chars_append whole
  | _, _, _, _, .backref _ h => by
    rw [Tree.chars_leaf]
    exact h.consumed_append

theorem DerivesEach.chars_append (whole : p.Whole) : ∀ {ids s trees rest}, DerivesEach p ids s trees rest →
    trees.flatMap Tree.chars ++ rest.chars = s.chars
  | _, _, _, _, .nil => rfl
  | _, _, _, _, .cons d ds => by
    rw [List.flatMap_cons, List.append_assoc, ds.chars_append whole, d.chars_append whole]
  | _, _, _, _, .elided ds => ds.chars_append whole
end

end GrammarKit
