/-
Module: GrammarKit.Proofs.Derivation
Purpose: Which trees a program can make of which texts.  A derivation follows the operators alone: it may
  take any alternative, repeat as often as the bounds allow, and match a back reference with any text.  So
  it says less than a parse does, but what it says needs neither names nor generations nor fuel, and every
  tree that a parse gives is derived.
Main exports: Derives, Derives.follows, Derives.chars_eq_nil, Program.recognizer_derives
-/
import GrammarKit.Parse.Run
import GrammarKit.Proofs.ListSlots
import GrammarKit.Proofs.MatchInvariant

namespace GrammarKit

mutual
/-- A parser makes a tree of the beginning of a slice and leaves a rest. -/
inductive Derives (p : Program) : ParserId → Slice → Tree → Slice → Prop
  | terminal {id label t s m} : p.parsers[id]? = some ⟨label, .terminal t⟩ →
      t.regex.match? s = some m → Derives p id s (.leaf m.output) m.rest
  | call {id label target s tree rest} : p.parsers[id]? = some ⟨label, .call target⟩ →
      Derives p target s tree rest → Derives p id s tree rest
  | cut {id label inner s tree rest} : p.parsers[id]? = some ⟨label, .cut inner⟩ →
      Derives p inner s tree rest → Derives p id s tree rest
  | seq {id label items s trees rest} : p.parsers[id]? = some ⟨label, .seq items⟩ →
      DerivesEach p (items.map fun item => some item.parser) s trees rest →
      Derives p id s (.node (label.getD Tree.seqTag) none trees) rest
  | choice {id label alternatives index chosen s tree rest} :
      p.parsers[id]? = some ⟨label, .choice alternatives⟩ → alternatives[index]? = some chosen →
      Derives p chosen s tree rest →
      Derives p id s (.node (label.getD Tree.choiceTag) (some (.choice index)) [tree]) rest
  | quant {id label term min max s trees rest} : p.parsers[id]? = some ⟨label, .quant term min max⟩ →
      min ≤ trees.length → max = 0 ∨ trees.length ≤ Nat.max min max →
      DerivesEach p (List.replicate trees.length (some term)) s trees rest →
      Derives p id s (.node (label.getD Tree.quantTag) none trees) rest
  | list {id label element separator style cutSeparator leading trailing left s slots rest} :
      p.parsers[id]? = some ⟨label, .list element separator style cutSeparator⟩ →
      (leading = true → style.leading = true) → (trailing = true → style.trailing = true) →
      leading.toNat + trailing.toNat ≤ left →
      DerivesEach p (slotPattern (some element) (some separator) none leading trailing left true) s
        slots rest →
      Derives p id s (.ofSlots (label.getD Tree.listTag) style.assoc slots) rest
  | backref {id label name default s rest} : p.parsers[id]? = some ⟨label, .backref name default⟩ →
      rest.Follows s → Derives p id s (.leaf (Recognizer.consumed s rest)) rest

/-- Several parsers make trees one after the other; nothing in their place stands for an elided one. -/
inductive DerivesEach (p : Program) : List (Option ParserId) → Slice → List Tree → Slice → Prop
  | nil {s} : DerivesEach p [] s [] s
  | cons {id ids s tree next trees rest} : Derives p id s tree next → DerivesEach p ids next trees rest →
      DerivesEach p (some id :: ids) s (tree :: trees) rest
  | elided {ids s trees rest} : DerivesEach p ids s trees rest →
      DerivesEach p (none :: ids) s (.elided :: trees) rest
end

/-! ### Rests -/

section Rests

variable {p : Program}

mutual
/-- A parser leaves what follows some characters. -/
theorem Derives.follows : ∀ {id s tree rest}, Derives p id s tree rest → rest.Follows s
  | _, _, _, _, .terminal _ found => Regex.match?_follows found
  | _, _, _, _, .call _ d => d.follows
  | _, _, _, _, .cut _ d => d.follows
  | _, _, _, _, .seq _ ds => ds.follows
  | _, _, _, _, .choice _ _ d => d.follows
  | _, _, _, _, .quant _ _ _ ds => ds.follows
  | _, _, _, _, .list _ _ _ _ ds => ds.follows
  | _, _, _, _, .backref _ h => h

theorem DerivesEach.follows : ∀ {ids s trees rest}, DerivesEach p ids s trees rest → rest.Follows s
  | _, _, _, _, .nil => .refl _
  | _, _, _, _, .cons d ds => ds.follows.trans d.follows
  | _, _, _, _, .elided ds => ds.follows
end

theorem DerivesEach.length_eq : ∀ {ids s trees rest}, DerivesEach p ids s trees rest →
    trees.length = ids.length
  | _, _, _, _, .nil => rfl
  | _, _, _, _, .cons _ ds => congrArg (· + 1) ds.length_eq
  | _, _, _, _, .elided ds => congrArg (· + 1) ds.length_eq

theorem DerivesEach.append {ids ids' : List (Option ParserId)} {trees trees' : List Tree}
    {s next rest : Slice} (h : DerivesEach p ids s trees next) (h' : DerivesEach p ids' next trees' rest) :
    DerivesEach p (ids ++ ids') s (trees ++ trees') rest := by
  induction ids generalizing s trees with
  | nil => cases h; exact h'
  | cons id ids ih =>
    cases h with
    | cons d ds => exact .cons d (ih ds)
    | elided ds => exact .elided (ih ds)

theorem DerivesEach.replicate {id : ParserId} {s : Slice} {tree : Tree} (d : Derives p id s tree s)
    (n : Nat) : DerivesEach p (List.replicate n (some id)) s (List.replicate n tree) s := by
  induction n with
  | zero => exact .nil
  | succ n ih => exact .cons d ih

theorem DerivesEach.mem_replicate {id : ParserId} {n : Nat} {s rest : Slice} {trees : List Tree}
    (ds : DerivesEach p (List.replicate n (some id)) s trees rest) {tree : Tree} (member : tree ∈ trees) :
    ∃ here next, Derives p id here tree next := by
  induction n generalizing s trees with
  | zero =>
    cases ds
    cases member
  | succ n ih =>
    cases ds with
    | cons d ds =>
      rcases List.mem_cons.mp member with rfl | member
      · exact ⟨_, _, d⟩
      · exact ih ds member

/-- The slots of a derived list are of odd number. -/
theorem DerivesEach.length_slots {element separator : ParserId} {leading trailing first : Bool}
    {left : Nat} {s rest : Slice} {slots : List Tree}
    (ds : DerivesEach p (slotPattern (some element) (some separator) none leading trailing left first) s
      slots rest) : slots.length = 2 * left + 1 := by
  rw [ds.length_eq, length_slotPattern]

theorem Tree.chars_node (tag : String) (extra : Option Extra) (children : List Tree) :
    (Tree.node tag extra children).chars = children.flatMap Tree.chars := by
  rw [Tree.chars, Tree.leaves, Tree.leavesAll_eq_flatMap, List.flatMap_assoc]
  rfl

theorem Tree.chars_ofSlots (tag : String) (assoc : Assoc) {slots : List Tree} {left : Nat}
    (odd : slots.length = 2 * left + 1) :
    (Tree.ofSlots tag assoc slots).chars = slots.flatMap Tree.chars := by
  rw [Tree.chars, Tree.leaves_ofSlots tag assoc odd, Tree.leavesAll_eq_flatMap, List.flatMap_assoc]
  rfl

@[simp] theorem Tree.chars_leaf (s : Slice) : (Tree.leaf s).chars = s.chars := by
  simp [Tree.chars, Tree.leaves]

@[simp] theorem Tree.chars_elided : Tree.elided.chars = [] := rfl

mutual
/-- A tree that was made without taking input has no text. -/
theorem Derives.chars_eq_nil : ∀ {id s tree rest}, Derives p id s tree rest → rest = s →
    tree.chars = []
  | _, _, _, _, .terminal _ found, same => by
    rw [Tree.chars_leaf]
    exact Regex.match?_output_eq_nil found same
  | _, _, _, _, .call _ d, same => d.chars_eq_nil same
  | _, _, _, _, .cut _ d, same => d.chars_eq_nil same
  | _, _, _, _, .seq _ ds, same => by
    rw [Tree.chars_node]
    exact ds.chars_eq_nil same
  | _, _, _, _, .choice _ _ d, same => by
    rw [Tree.chars_node, List.flatMap_singleton]
    exact d.chars_eq_nil same
  | _, _, _, _, .quant _ _ _ ds, same => by
    rw [Tree.chars_node]
    exact ds.chars_eq_nil same
  | _, _, _, _, .list _ _ _ _ ds, same => by
    rw [Tree.chars_ofSlots _ _ ds.length_slots]
    exact ds.chars_eq_nil same
  | _, _, _, _, .backref _ h, same => by
    rw [Tree.chars_leaf]
    exact h.consumed_eq_nil_iff.mpr same

theorem DerivesEach.chars_eq_nil : ∀ {ids s trees rest}, DerivesEach p ids s trees rest → rest = s →
    trees.flatMap Tree.chars = []
  | _, _, _, _, .nil, _ => rfl
  | _, s, _, _, @DerivesEach.cons _ _ _ _ _ next _ _ d ds, same => by
    have between : next = s := d.follows.eq_of_length_eq <| by
      have := ds.follows.length_le
      have := d.follows.length_le
      rw [same] at *
      omega
    rw [List.flatMap_cons, d.chars_eq_nil between, ds.chars_eq_nil (same.trans between.symm)]
    rfl
  | _, _, _, _, .elided ds, same => by
    rw [List.flatMap_cons, ds.chars_eq_nil same]
    rfl
end

end Rests

/-! ### Inversions -/

section Inversions

variable {p : Program} {id : ParserId} {label : Option String} {s rest : Slice} {tree : Tree}

/-- What the operator of a parser says about a derivation by it. -/
def Operator.Derived (p : Program) (label : Option String) (s : Slice) (tree : Tree) (rest : Slice) :
    Operator → Prop
  | .pending _ => False
  | .terminal t => ∃ m, t.regex.match? s = some m ∧ tree = .leaf m.output ∧ rest = m.rest
  | .call target => Derives p target s tree rest
  | .cut inner => Derives p inner s tree rest
  | .seq items =>
      ∃ trees, tree = .node (label.getD Tree.seqTag) none trees ∧
        DerivesEach p (items.map fun item => some item.parser) s trees rest
  | .choice alternatives =>
      ∃ index chosen inner, alternatives[index]? = some chosen ∧
        tree = .node (label.getD Tree.choiceTag) (some (.choice index)) [inner] ∧
        Derives p chosen s inner rest
  | .quant term min max =>
      ∃ trees, tree = .node (label.getD Tree.quantTag) none trees ∧ min ≤ trees.length ∧
        (max = 0 ∨ trees.length ≤ Nat.max min max) ∧
        DerivesEach p (List.replicate trees.length (some term)) s trees rest
  | .list element separator style _ =>
      ∃ leading trailing left slots,
        tree = .ofSlots (label.getD Tree.listTag) style.assoc slots ∧
        (leading = true → style.leading = true) ∧ (trailing = true → style.trailing = true) ∧
        leading.toNat + trailing.toNat ≤ left ∧
        DerivesEach p (slotPattern (some element) (some separator) none leading trailing left true) s
          slots rest
  | .backref _ _ => rest.Follows s ∧ tree = .leaf (Recognizer.consumed s rest)

/-- A derivation by a parser is one by its operator. -/
theorem Derives.inv {operator : Operator} (here : p.parsers[id]? = some ⟨label, operator⟩)
    (d : Derives p id s tree rest) : operator.Derived p label s tree rest := by
  cases d with
  | terminal there found =>
    obtain ⟨rfl, rfl⟩ := Parser.mk.inj (Option.some.inj (here.symm.trans there))
    exact ⟨_, found, rfl, rfl⟩
  | call there d | cut there d =>
    obtain ⟨rfl, rfl⟩ := Parser.mk.inj (Option.some.inj (here.symm.trans there))
    exact d
  | seq there ds =>
    obtain ⟨rfl, rfl⟩ := Parser.mk.inj (Option.some.inj (here.symm.trans there))
    exact ⟨_, rfl, ds⟩
  | choice there chosen d =>
    obtain ⟨rfl, rfl⟩ := Parser.mk.inj (Option.some.inj (here.symm.trans there))
    exact ⟨_, _, _, chosen, rfl, d⟩
  | quant there enough bound ds =>
    obtain ⟨rfl, rfl⟩ := Parser.mk.inj (Option.some.inj (here.symm.trans there))
    exact ⟨_, rfl, enough, bound, ds⟩
  | list there leading trailing enough ds =>
    obtain ⟨rfl, rfl⟩ := Parser.mk.inj (Option.some.inj (here.symm.trans there))
    exact ⟨_, _, _, _, rfl, leading, trailing, enough, ds⟩
  | backref there follows =>
    obtain ⟨rfl, rfl⟩ := Parser.mk.inj (Option.some.inj (here.symm.trans there))
    exact ⟨follows, rfl⟩

end Inversions

/-! ### Parses are derivations -/

/-- Every tree that a recognizer gives is one that a parser derives. -/
def Recognizer.Realizes (p : Program) (run : Recognizer) (id : ParserId) : Prop :=
  ∀ {rule c s t tree rest t'}, run rule c s t = (.matched (tree, rest), t') → Derives p id s tree rest

namespace Recognizer

variable {p : Program} {self : ParserId → Recognizer} (realizes : ∀ id, (self id).Realizes p id)
include realizes

theorem sequenceFrom_derives {labelled : Bool} {rule : String} {outer own : Option Nat}
    {items : List Item} {index : Nat} {crossed : Bool} {c : Context} {s rest : Slice} {t t' : Tally}
    {trees : List Tree}
    (h : sequenceFrom labelled rule outer own
      (items.map fun item => ⟨item.bind, item.cut, self item.parser⟩) index crossed c s t
        = (.matched (trees, rest), t')) :
    DerivesEach p (items.map fun item => some item.parser) s trees rest := by
  induction items generalizing index crossed c s t trees with
  | nil =>
    simp only [List.map_nil, sequenceFrom, Prod.mk.injEq, Outcome.matched.injEq] at h
    obtain ⟨⟨rfl, rfl⟩, -⟩ := h
    exact .nil
  | cons item items ih =>
    simp only [List.map_cons, sequenceFrom] at h
    split at h
    · next found =>
      split at h
      · next others =>
        simp only [Prod.mk.injEq, Outcome.matched.injEq] at h
        obtain ⟨⟨rfl, rfl⟩, rfl⟩ := h
        exact .cons (realizes _ found) (ih others)
      all_goals cases h
    all_goals cases h

theorem sequence_derives {id : ParserId} {label : Option String} {items : List Item}
    (here : p.parsers[id]? = some ⟨label, .seq items⟩) :
    (sequence label (items.map fun item => ⟨item.bind, item.cut, self item.parser⟩)).Realizes p id := by
  intro rule c s t tree rest t' h
  simp only [sequence] at h
  split at h
  · next found =>
    simp only [Prod.mk.injEq, Outcome.matched.injEq] at h
    obtain ⟨⟨rfl, rfl⟩, -⟩ := h
    exact .seq here (sequenceFrom_derives realizes found)
  all_goals cases h

theorem choiceFrom_derives {tag rule : String} {e : Enclosed} {s : Slice} {alternatives : List ParserId}
    {index : Nat} {failures : List Failure} {t t' : Tally} {tree : Tree} {rest : Slice}
    (h : choiceFrom tag rule e s (alternatives.map self) index failures t = (.matched (tree, rest), t')) :
    ∃ taken chosen inner, alternatives[taken]? = some chosen ∧ Derives p chosen s inner rest ∧
      tree = .node tag (some (.choice (index + taken))) [inner] := by
  induction alternatives generalizing index failures t with
  | nil => simp [choiceFrom] at h
  | cons alternative alternatives ih =>
    simp only [List.map_cons, choiceFrom] at h
    split at h
    · next found =>
      simp only [Prod.mk.injEq, Outcome.matched.injEq] at h
      obtain ⟨⟨rfl, rfl⟩, -⟩ := h
      exact ⟨0, alternative, _, rfl, realizes _ found, rfl⟩
    · split at h
      · cases h
      · obtain ⟨taken, chosen, inner, here, d, rfl⟩ := ih h
        exact ⟨taken + 1, chosen, inner, here, d, by rw [Nat.add_right_comm, Nat.add_assoc]⟩
    · cases h

theorem choice_derives {id : ParserId} {label : Option String} {alternatives : List ParserId}
    (here : p.parsers[id]? = some ⟨label, .choice alternatives⟩) :
    (choice label (alternatives.map self)).Realizes p id := by
  intro rule c s t tree rest t' h
  simp only [choice] at h
  obtain ⟨taken, chosen, inner, found, d, rfl⟩ := choiceFrom_derives realizes h
  rw [Nat.zero_add]
  exact .choice here found d

/-- The trees that a repetition adds to those it has, and how many it has in the end. -/
theorem repeatFrom_derives {term : ParserId} {rule : String} {e : Enclosed} {min max fuel : Nat}
    {trees : Array Tree} {s : Slice} {t t' : Tally} {result : List Tree} {rest : Slice}
    {last : Option Failure}
    (h : repeatFrom (self term) rule e min max fuel trees s t = (.matched (result, rest, last), t'))
    (within : max = 0 ∨ trees.size ≤ max) :
    (max = 0 ∨ result.length ≤ Nat.max min max) ∧
      ∃ more, result = trees.toList ++ more ∧
        DerivesEach p (List.replicate more.length (some term)) s more rest := by
  induction fuel generalizing trees s t with
  | zero => simp [repeatFrom] at h
  | succ fuel ih =>
    simp only [repeatFrom] at h
    split at h
    · simp only [Prod.mk.injEq, Outcome.matched.injEq] at h
      obtain ⟨⟨rfl, rfl, -⟩, -⟩ := h
      refine ⟨within.imp_right fun le => ?_, [], by simp, .nil⟩
      exact Nat.le_trans (by simpa using le) (Nat.le_max_right _ _)
    · next more =>
      split at h
      · next tree next t found =>
        have d := realizes _ found
        split at h
        · next start =>
          -- a match without input counts as often as is still required
          have same := d.follows.eq_of_start_eq start
          subst same
          simp only [Prod.mk.injEq, Outcome.matched.injEq] at h
          obtain ⟨⟨rfl, rfl, -⟩, -⟩ := h
          refine ⟨?_, List.replicate (Nat.max (trees.size + 1) min - trees.size) tree, ?_, ?_⟩
          · simp only [padRepetitions, Array.toList_append, Array.toList_replicate, List.length_append,
              List.length_replicate, Array.length_toList]
            by_cases unbounded : max = 0
            · exact .inl unbounded
            · have : trees.size < max := by omega
              simp only [Nat.max_def]
              split <;> split <;> omega
          · simp [padRepetitions]
          · rw [List.length_replicate]
            exact .replicate d _
        · obtain ⟨bound, more, rfl, ds⟩ := ih h (by rw [Array.size_push]; omega)
          exact ⟨bound, tree :: more, by simp, .cons d ds⟩
      · split at h
        · cases h
        · simp only [Prod.mk.injEq, Outcome.matched.injEq] at h
          obtain ⟨⟨rfl, rfl, -⟩, -⟩ := h
          refine ⟨within.imp_right fun le => ?_, [], by simp, .nil⟩
          exact Nat.le_trans (by simpa using le) (Nat.le_max_right _ _)
      · cases h

theorem repetition_derives {id term : ParserId} {label : Option String} {min max : Nat}
    (here : p.parsers[id]? = some ⟨label, .quant term min max⟩) :
    (repetition label (self term) min max).Realizes p id := by
  intro rule c s t tree rest t' h
  simp only [repetition] at h
  split at h
  · next found =>
    split at h
    · next enough =>
      simp only [Prod.mk.injEq, Outcome.matched.injEq] at h
      obtain ⟨⟨rfl, rfl⟩, -⟩ := h
      obtain ⟨bound, more, rfl, ds⟩ := repeatFrom_derives realizes found (.inr (Nat.zero_le _))
      exact .quant here enough bound (by simpa using ds)
    · cases h
  all_goals cases h

theorem pair_derives {element separator : ParserId} {style : ListStyle} {cutSeparator : Bool}
    {rule : String} {e : Enclosed} {mayElide : Bool} {s : Slice} {t t' : Tally} {found : Pair}
    (h : pair ⟨self element, self separator, style, cutSeparator⟩ rule e mayElide s t
      = (.matched (some found), t')) :
    ∃ next, Derives p separator s found.separator next ∧
      ((∃ tree, found.element = some tree ∧ Derives p element next tree found.rest) ∨
        (mayElide = true ∧ found.element = none ∧ found.rest = next)) := by
  simp only [pair] at h
  generalize (if cutSeparator then e.context.enclose true t else (⟨e.context, e.own, e.own⟩, t)) = inner
    at h
  split at h
  · next separator next _ first =>
    split at h
    · next second =>
      simp only [Prod.mk.injEq, Outcome.matched.injEq, Option.some.injEq] at h
      obtain ⟨rfl, -⟩ := h
      exact ⟨next, realizes _ first, .inl ⟨_, rfl, realizes _ second⟩⟩
    · split at h
      · split at h
        · next elide =>
          simp only [Prod.mk.injEq, Outcome.matched.injEq, Option.some.injEq] at h
          obtain ⟨rfl, -⟩ := h
          exact ⟨next, realizes _ first, .inr ⟨((Bool.and_eq_true _ _).mp elide).1, rfl, rfl⟩⟩
        · cases h
      · split at h
        · cases h
        · split at h
          · next elide =>
            simp only [Prod.mk.injEq, Outcome.matched.injEq, Option.some.injEq] at h
            obtain ⟨rfl, -⟩ := h
            exact ⟨next, realizes _ first, .inr ⟨elide, rfl, rfl⟩⟩
          · cases h
    · cases h
  · next f _ _ =>
    generalize (if f.generation == inner.1.own then f.retag inner.1.outer else f) = handed at h
    split at h <;> cases h
  · cases h

/-- The first slots of a list: an element, or none with a separator and an element after it. -/
theorem listHead_derives {element separator : ParserId} {style : ListStyle} {cutSeparator : Bool}
    {rule : String} {e : Enclosed} {s : Slice} {t t' : Tally} {slots : List Tree} {rest : Slice}
    (h : listHead ⟨self element, self separator, style, cutSeparator⟩ rule e s t
      = (.matched (slots, rest), t')) :
    ∃ leading : Bool, (leading = true → style.leading = true) ∧
      DerivesEach p
        (slotPattern (some element) (some separator) none leading false leading.toNat true) s slots
        rest := by
  simp only [listHead] at h
  split at h
  · next found =>
    simp only [Prod.mk.injEq, Outcome.matched.injEq] at h
    obtain ⟨⟨rfl, rfl⟩, -⟩ := h
    exact ⟨false, by simp, .cons (realizes _ found) .nil⟩
  · split at h
    · cases h
    · split at h
      · cases h
      · next leading =>
        split at h
        · next found =>
          simp only [Prod.mk.injEq, Outcome.matched.injEq] at h
          obtain ⟨⟨rfl, rfl⟩, -⟩ := h
          obtain ⟨next, d, ⟨tree, some, d'⟩ | ⟨never, -⟩⟩ := pair_derives realizes found
          · obtain rfl := Option.some.inj some
            exact ⟨true, fun _ => by simpa using leading, .elided (.cons d (.cons d' .nil))⟩
          · cases never
        all_goals cases h
  · cases h

/-- The further slots of a list: pairs of a separator and an element, the last one perhaps elided. -/
theorem listTail_derives {element separator : ParserId} {style : ListStyle} {cutSeparator : Bool}
    {rule : String} {e : Enclosed} {fuel : Nat} {slots : Array Tree} {s : Slice} {t t' : Tally}
    {result : List Tree} {rest : Slice}
    (h : listTail ⟨self element, self separator, style, cutSeparator⟩ rule e fuel slots s t
      = (.matched (result, rest), t')) :
    ∃ pairs trailing more, result = slots.toList ++ more ∧
      (trailing = true → style.trailing = true ∧ 0 < pairs) ∧
      DerivesEach p
        (slotPattern (some element) (some separator) none false trailing pairs false).tail s more
        rest := by
  induction fuel generalizing slots s t with
  | zero => simp [listTail] at h
  | succ fuel ih =>
    simp only [listTail] at h
    split at h
    · simp only [Prod.mk.injEq, Outcome.matched.injEq] at h
      obtain ⟨⟨rfl, rfl⟩, -⟩ := h
      exact ⟨0, false, [], by simp, by simp, .nil⟩
    · next found t here =>
      obtain ⟨next, d, ⟨tree, taken, d'⟩ | ⟨elide, none, same⟩⟩ := pair_derives realizes here
      · simp only [taken, Option.isNone_some, Bool.false_or, Option.getD_some] at h
        split at h
        · simp only [Prod.mk.injEq, Outcome.matched.injEq] at h
          obtain ⟨⟨rfl, rfl⟩, -⟩ := h
          exact ⟨1, false, [found.separator, tree], by simp, by simp, .cons d (.cons d' .nil)⟩
        · obtain ⟨pairs, trailing, more, rfl, ends, ds⟩ := ih h
          refine ⟨pairs + 1, trailing, found.separator :: tree :: more, by simp, ?_, ?_⟩
          · exact fun last => ⟨(ends last).1, Nat.succ_pos _⟩
          · rw [slotPattern, List.tail_cons, slotPattern_eq_cons fun last => (ends last).2]
            exact .cons d (.cons d' ds)
      · simp only [none, Option.isNone_none, Bool.true_or, if_true, Prod.mk.injEq,
          Outcome.matched.injEq] at h
        obtain ⟨⟨rfl, rfl⟩, -⟩ := h
        exact ⟨1, true, [found.separator, .elided], by simp, fun _ => ⟨elide, Nat.one_pos⟩,
          .cons d (.elided (same ▸ .nil))⟩
    all_goals cases h

theorem list_derives {id element separator : ParserId} {label : Option String} {style : ListStyle}
    {cutSeparator : Bool} (here : p.parsers[id]? = some ⟨label, .list element separator style cutSeparator⟩) :
    (list label ⟨self element, self separator, style, cutSeparator⟩).Realizes p id := by
  intro rule c s t tree rest t' h
  simp only [list] at h
  split at h
  · next head =>
    split at h
    · next tail =>
      simp only [Prod.mk.injEq, Outcome.matched.injEq] at h
      obtain ⟨⟨rfl, rfl⟩, -⟩ := h
      obtain ⟨leading, allowed, ds⟩ := listHead_derives realizes head
      obtain ⟨pairs, trailing, more, rfl, ends, ds'⟩ := listTail_derives realizes tail
      have enough : leading.toNat + trailing.toNat ≤ leading.toNat + pairs := by
        cases trailing with
        | false => exact Nat.le_add_right _ _
        | true => exact Nat.add_le_add_left (ends rfl).2 _
      refine .list here allowed (fun last => (ends last).1) enough ?_
      rw [slotPattern_append fun last => (ends last).2]
      exact ds.append ds'
    all_goals cases h
  all_goals cases h

theorem backref_derives {id : ParserId} {label : Option String} {name : String}
    {default : Option ParserId} (here : p.parsers[id]? = some ⟨label, .backref name default⟩) :
    (backref name (default.map self)).Realizes p id := by
  intro rule c s t tree rest t' h
  simp only [backref] at h
  split at h
  · split at h
    · next bound _ _ _ _ found =>
      simp only [Prod.mk.injEq, Outcome.matched.injEq] at h
      obtain ⟨⟨rfl, rfl⟩, -⟩ := h
      obtain ⟨rfl, rfl, whole, -⟩ := Slice.splitLiteral?_eq_some found
      have within : bound.chars.length ≤ s.chars.length := by
        rw [whole, List.length_append]
        exact Nat.le_add_right _ _
      rw [Slice.takeChars_eq_consumed within]
      exact .backref here (s.follows_dropChars _)
    · cases h
  · cases default with
    | none => cases h
    | some inner =>
      simp only [Option.map_some] at h
      split at h
      · next found =>
        simp only [Prod.mk.injEq, Outcome.matched.injEq] at h
        obtain ⟨⟨rfl, rfl⟩, -⟩ := h
        exact .backref here (realizes _ found).follows
      all_goals cases h

theorem operator_derives {id : ParserId} {label : Option String} {operator : Operator}
    (here : p.parsers[id]? = some ⟨label, operator⟩) :
    (operator.recognizer self label).Realizes p id := by
  cases operator with
  | pending name => intro _ _ _ _ _ _ _ h; cases h
  | terminal terminal =>
    intro rule c s t tree rest t' h
    simp only [Operator.recognizer, Recognizer.terminal] at h
    split at h
    · next found =>
      simp only [Prod.mk.injEq, Outcome.matched.injEq] at h
      obtain ⟨⟨rfl, rfl⟩, -⟩ := h
      exact .terminal here found
    · cases h
  | call target => exact fun h => .call here (realizes _ h)
  | cut inner => exact fun h => .cut here (realizes _ h)
  | seq items => exact sequence_derives realizes here
  | choice alternatives => exact choice_derives realizes here
  | list element separator style cutSeparator => exact list_derives realizes here
  | quant term min max => exact repetition_derives realizes here
  | backref name default =>
    intro rule c s t tree rest t' h
    have h : backref name (default.map self) rule c s t = (.matched (tree, rest), t') := h
    exact backref_derives realizes here h

end Recognizer

/-- Every tree that a program gives is derived by it, in whatever context and to whatever depth. -/
theorem Program.recognizer_derives (p : Program) (fuel : Nat) (id : ParserId) :
    (p.recognizer fuel id).Realizes p id := by
  induction fuel generalizing id with
  | zero => intro _ _ _ _ _ _ _ h; cases h
  | succ fuel ih =>
    intro rule c s t tree rest t' h
    simp only [recognizer] at h
    split at h
    · cases h
    · next parser here => exact Recognizer.operator_derives ih here h

end GrammarKit
