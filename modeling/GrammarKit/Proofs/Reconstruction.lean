/-
Module: GrammarKit.Proofs.Reconstruction
Purpose: What is rebuilt from a generic tree.  The bookkeeping of a branch is not trusted: whatever grammar it was
  made by, a tree that comes out conforms to its rule at every node, with the numbers of items, alternatives and
  repetitions that the terms say.  Only which ends of a list are elided is taken from the branch as it stands, even
  where the list does not allow it.
Main exports: Term.Conforms, ListStyle.Allows, Generic.Node.Bears, Generic.conforms_of_rebuild,
  Grammar.ofGeneric_conforms, Grammar.ofGeneric_elides
-/
import GrammarKit.Proofs.BlankFields
import GrammarKit.Proofs.Bridge

namespace GrammarKit

/-- The ends that a list may leave out: those at which it may begin or end with a separator. -/
def ListStyle.Allows (style : ListStyle) (leading trailing : Bool) : Prop :=
  (leading = true → style.leading = true) ∧ (trailing = true → style.trailing = true)

namespace Term

/-! ### Conforming trees -/

mutual
/-- A tree conforms to a term at every node, with a given label at the top.  A list node may have those of its ends
elided that `ends` accepts for the style of the list. -/
inductive Conforms (ends : ListStyle → Bool → Bool → Prop) : Scope → Option String → Term → Tree → Prop
  | literal {scope label text s} : Conforms ends scope label (.literal text) (.leaf s)
  | regex {scope label pattern s} : Conforms ends scope label (.regex pattern) (.leaf s)
  | backref {scope label name default s} : Conforms ends scope label (.backref name default) (.leaf s)
  | rule {scope label name body inner tree} : scope.find? name = some (body, inner) →
      Conforms ends inner (some name) body tree → Conforms ends scope label (.rule name) tree
  | capture {scope label name t tree} : Conforms ends scope (some name) t tree →
      Conforms ends scope label (.capture name t) tree
  | cut {scope label t tree} : Conforms ends scope label t tree → Conforms ends scope label (.cut t) tree
  | withRules {scope label t rules tree} : Conforms ends (rules :: scope) label t tree →
      Conforms ends scope label (.withRules t rules) tree
  | seq {scope label ts children} : ConformsEach ends scope (ts.map some) children →
      Conforms ends scope label (.seq ts) (.node (label.getD Tree.seqTag) none children)
  | choice {scope label ts index t child} : ts[index]? = some t → Conforms ends scope none t child →
      Conforms ends scope label (.choice ts) (.node (label.getD Tree.choiceTag) (some (.choice index)) [child])
  | quant {scope label t min max children} : min ≤ children.length → (max ≠ 0 → children.length ≤ max) →
      ConformsEach ends scope (List.replicate children.length (some t)) children →
      Conforms ends scope label (.quant t min max) (.node (label.getD Tree.quantTag) none children)
  | list {scope label element separator style leading trailing left slots} : ends style leading trailing →
      leading.toNat + trailing.toNat ≤ left →
      ConformsEach ends scope (slotPattern (some element) (some separator) none leading trailing left true) slots →
      Conforms ends scope label (.list element separator style)
        (.ofSlots (label.getD Tree.listTag) style.assoc slots)

/-- Trees conform to terms one by one; nothing in the place of a term stands for an elided tree. -/
inductive ConformsEach (ends : ListStyle → Bool → Bool → Prop) : Scope → List (Option Term) → List Tree → Prop
  | nil {scope} : ConformsEach ends scope [] []
  | cons {scope t ts tree trees} : Conforms ends scope none t tree → ConformsEach ends scope ts trees →
      ConformsEach ends scope (some t :: ts) (tree :: trees)
  | elided {scope ts trees} : ConformsEach ends scope ts trees →
      ConformsEach ends scope (none :: ts) (.elided :: trees)
end

section Conforms

variable {ends ends' : ListStyle → Bool → Bool → Prop}

mutual
/-- Accepting more ends accepts more trees. -/
theorem Conforms.mono (more : ∀ style leading trailing, ends style leading trailing → ends' style leading trailing) :
    ∀ {scope label t tree}, Conforms ends scope label t tree → Conforms ends' scope label t tree
  | _, _, _, _, .literal => .literal
  | _, _, _, _, .regex => .regex
  | _, _, _, _, .backref => .backref
  | _, _, _, _, .rule found h => .rule found (h.mono more)
  | _, _, _, _, .capture h => .capture (h.mono more)
  | _, _, _, _, .cut h => .cut (h.mono more)
  | _, _, _, _, .withRules h => .withRules (h.mono more)
  | _, _, _, _, .seq hs => .seq (hs.mono more)
  | _, _, _, _, .choice found h => .choice found (h.mono more)
  | _, _, _, _, .quant least most hs => .quant least most (hs.mono more)
  | _, _, _, _, .list allowed enough hs => .list (more _ _ _ allowed) enough (hs.mono more)

theorem ConformsEach.mono
    (more : ∀ style leading trailing, ends style leading trailing → ends' style leading trailing) :
    ∀ {scope ts trees}, ConformsEach ends scope ts trees → ConformsEach ends' scope ts trees
  | _, _, _, .nil => .nil
  | _, _, _, .cons h hs => .cons (h.mono more) (hs.mono more)
  | _, _, _, .elided hs => .elided (hs.mono more)
end

theorem ConformsEach.length_eq {scope : Scope} : ∀ {ts trees}, ConformsEach ends scope ts trees →
    trees.length = ts.length
  | _, _, .nil => rfl
  | _, _, .cons _ hs => congrArg (· + 1) hs.length_eq
  | _, _, .elided hs => congrArg (· + 1) hs.length_eq

/-- The slots of a list that conforms. -/
theorem Conforms.slots {scope : Scope} {label : Option String} {element separator : Term} {style : ListStyle}
    {tree : Tree} (h : Conforms ends scope label (.list element separator style) tree) :
    ∃ leading trailing left slots, ends style leading trailing ∧ Tree.slots? tree = some slots ∧
      slots.length = 2 * left + 1 ∧
      ConformsEach ends scope (slotPattern (some element) (some separator) none leading trailing left true) slots := by
  cases h with
  | @list _ _ _ _ _ leading trailing left slots allowed _ each =>
    have odd : slots.length = 2 * left + 1 := by rw [each.length_eq, length_slotPattern]
    exact ⟨leading, trailing, left, slots, allowed, Tree.slots?_ofSlots _ _ odd, odd, each⟩

end Conforms
end Term

namespace Generic

/-! ### Entries in a node -/

/-- A node holds a bookkeeping entry, at any depth. -/
inductive Node.Bears (m : Mark) : Node → Prop
  | here : Node.Bears m (.mark m)
  | inside {b : Branch} {entry node} : entry ∈ b.entries → node ∈ entry.2.values → Node.Bears m node →
      Node.Bears m (.branch b)

@[simp] theorem Node.bears_leaf {m : Mark} {s : Slice} : ¬ Node.Bears m (.leaf s) :=
  nofun

@[simp] theorem Node.bears_mark {m other : Mark} : Node.Bears m (.mark other) ↔ m = other := by
  refine ⟨fun bears => ?_, fun same => same ▸ .here⟩
  cases bears
  rfl

/-- All bookkeeping entries in a branch have a property. -/
def Branch.AllMarks (P : Mark → Prop) (b : Branch) : Prop :=
  ∀ m, Node.Bears m (.branch b) → P m

section AllMarks

variable {P : Mark → Prop} {b rest : Branch}

theorem Branch.allMarks_iff :
    b.AllMarks P ↔ ∀ entry ∈ b.entries, ∀ node ∈ entry.2.values, ∀ m, Node.Bears m node → P m := by
  constructor
  · exact fun all entry here node member m bears => all m (.inside here member bears)
  · rintro all m (_ | ⟨here, member, bears⟩)
    exact all _ here _ member m bears

/-- What is taken out of a branch holds entries of the branch, and so does what stays. -/
theorem Branch.AllMarks.pull (all : b.AllMarks P) {name : String} {single : Bool} {node : Node}
    (pulled : b.pull name single = .ok (node, rest)) : (∀ m, node.Bears m → P m) ∧ rest.AllMarks P := by
  rw [allMarks_iff] at all ⊢
  rcases Branch.pull_cases pulled with ⟨-, present, rfl⟩ | ⟨nodes, -, present, rfl⟩
  · have here := all _ (Table.mem_of_lookup present)
    exact ⟨here node List.mem_cons_self, fun entry member => all entry (List.mem_of_mem_filter member)⟩
  · obtain ⟨first, others⟩ := List.forall_mem_cons.mp (all _ (Table.mem_of_lookup present))
    refine ⟨first, fun entry member => ?_⟩
    rcases Table.mem_insertEntry member with rfl | old
    · exact others
    · exact all entry old

theorem allMarks_of_pullLeaf (all : b.AllMarks P) {counters : Counters} {field : String} {tree : Tree}
    (pulled : pullLeaf counters field b = .ok (tree, rest)) : (∃ s, tree = .leaf s) ∧ rest.AllMarks P := by
  obtain ⟨⟨node, left⟩, first, second⟩ := Except.bind_eq_ok pulled
  cases node with
  | leaf s =>
    cases second
    exact ⟨⟨s, rfl⟩, (all.pull (Except.mapError_eq_ok first)).2⟩
  | branch _ => cases second
  | mark _ => cases second

theorem allMarks_of_pullBranch (all : b.AllMarks P) {counters : Counters} {field : String} {child : Branch}
    (pulled : pullBranch counters field b = .ok (child, rest)) : child.AllMarks P ∧ rest.AllMarks P := by
  obtain ⟨⟨node, left⟩, first, second⟩ := Except.bind_eq_ok pulled
  cases node with
  | branch _ =>
    cases second
    exact all.pull (Except.mapError_eq_ok first)
  | leaf _ => cases second
  | mark _ => cases second

theorem allMarks_of_pullMark (all : b.AllMarks P) {field : String} {m : Mark}
    (pulled : pullMark field b = .ok (m, rest)) : P m ∧ rest.AllMarks P := by
  obtain ⟨⟨node, left⟩, first, second⟩ := Except.bind_eq_ok pulled
  cases node with
  | mark _ =>
    cases second
    obtain ⟨taken, others⟩ := all.pull (Except.mapError_eq_ok first)
    exact ⟨taken m .here, others⟩
  | leaf _ => cases second
  | branch _ => cases second

theorem allMarks_of_pullChoice (all : b.AllMarks P) {index : Nat} (pulled : pullChoice b = .ok (index, rest)) :
    rest.AllMarks P := by
  obtain ⟨⟨m, left⟩, first, second⟩ := Except.bind_eq_ok pulled
  cases m <;> cases second
  exact (allMarks_of_pullMark all first).2

/-- A number of repetitions that is taken is within the bounds. -/
theorem allMarks_of_pullCount (all : b.AllMarks P) {min max n : Nat} (pulled : pullCount min max b = .ok (n, rest)) :
    min ≤ n ∧ (max ≠ 0 → n ≤ max) ∧ rest.AllMarks P := by
  obtain ⟨⟨m, left⟩, first, second⟩ := Except.bind_eq_ok pulled
  cases m with
  | count n =>
    simp only at second
    split at second
    · cases second
    · next within =>
      cases second
      exact ⟨by omega, by omega, (allMarks_of_pullMark all first).2⟩
  | _ => cases second

/-- A shape that is taken has room for the ends that it says are elided, and nothing more is asked of it. -/
theorem allMarks_of_pullList (all : b.AllMarks P) {terms : Nat} {leading trailing : Bool}
    (pulled : pullList b = .ok ((terms, leading, trailing), rest)) :
    1 + leading.toNat + trailing.toNat ≤ terms ∧ P (.list terms leading trailing) ∧ rest.AllMarks P := by
  obtain ⟨⟨m, left⟩, first, second⟩ := Except.bind_eq_ok pulled
  cases m with
  | list terms leading trailing =>
    simp only at second
    split at second
    · cases second
    · next enough =>
      cases second
      exact ⟨Nat.not_lt.mp enough, allMarks_of_pullMark all first⟩
  | _ => cases second

end AllMarks

/-! ### Rebuilding -/

/-- The ends that some list shape with a given property says are elided. -/
def Mark.Elides (P : Mark → Prop) (_ : ListStyle) (leading trailing : Bool) : Prop :=
  ∃ terms, P (.list terms leading trailing)

/-- A tree that is made of the branch of a rule conforms to the body of the rule, through as many rules inside each
other. -/
def RulesConform (P : Mark → Prop) (n : Nat) : Prop :=
  ∀ {scope : Scope} {body : Term} {name : String} {b : Branch} {tree : Tree}, b.AllMarks P →
    toRule n scope body name b = .ok tree → Term.Conforms (Mark.Elides P) scope (some name) body tree

section Rebuild

variable {P : Mark → Prop} {n : Nat} {scope : Scope} {b rest : Branch}

/-- Trees that are read one after the other conform, if what is read of a term does. -/
theorem conforms_of_rebuildTimes {t : Term} {read : Branch → Except Error (Tree × Branch)}
    (each : ∀ {b tree rest}, b.AllMarks P → read b = .ok (tree, rest) →
      Term.Conforms (Mark.Elides P) scope none t tree ∧ rest.AllMarks P) {times : Nat} {trees : List Tree}
    (all : b.AllMarks P) (rebuilt : rebuildTimes read times b = .ok (trees, rest)) :
    Term.ConformsEach (Mark.Elides P) scope (List.replicate times (some t)) trees ∧ rest.AllMarks P := by
  induction times generalizing b trees with
  | zero =>
    cases rebuilt
    exact ⟨.nil, all⟩
  | succ times ih =>
    obtain ⟨⟨tree, b₁⟩, first, rebuilt⟩ := Except.bind_eq_ok rebuilt
    obtain ⟨⟨others, b₂⟩, later, rebuilt⟩ := Except.bind_eq_ok rebuilt
    cases rebuilt
    obtain ⟨here, all⟩ := each all first
    obtain ⟨conform, all⟩ := ih all later
    exact ⟨.cons here conform, all⟩

section Slots

variable {element separator : Term} {read read' : Branch → Except Error (Tree × Branch)}
  (elements : ∀ {b tree rest}, b.AllMarks P → read b = .ok (tree, rest) →
    Term.Conforms (Mark.Elides P) scope none element tree ∧ rest.AllMarks P)
include elements

/-- A slot is elided, or else an element; what conforms after it conforms after both. -/
theorem conforms_of_slot {elided : Bool} {slot : Tree} (all : b.AllMarks P)
    (rebuilt : (if elided then .ok (.elided, b) else read b) = Except.ok (slot, rest)) :
    rest.AllMarks P ∧ ∀ {ts trees}, Term.ConformsEach (Mark.Elides P) scope ts trees →
      Term.ConformsEach (Mark.Elides P) scope ((if elided then none else some element) :: ts) (slot :: trees) := by
  cases elided with
  | true =>
    cases rebuilt
    exact ⟨all, .elided⟩
  | false =>
    obtain ⟨here, all⟩ := elements all rebuilt
    exact ⟨all, .cons here⟩

/-- The slots of a list conform in turn to the element and the separator, but for the ends that are elided. -/
theorem conforms_of_rebuildSlots
    (separators : ∀ {b tree rest}, b.AllMarks P → read' b = .ok (tree, rest) →
      Term.Conforms (Mark.Elides P) scope none separator tree ∧ rest.AllMarks P)
    {leading trailing first : Bool} {left : Nat} {slots : List Tree} (all : b.AllMarks P)
    (rebuilt : rebuildSlots read read' leading trailing left first b = .ok (slots, rest)) :
    Term.ConformsEach (Mark.Elides P) scope
      (slotPattern (some element) (some separator) none leading trailing left first) slots ∧ rest.AllMarks P := by
  induction left generalizing first b slots with
  | zero =>
    rw [rebuildSlots_zero] at rebuilt
    obtain ⟨⟨slot, b₁⟩, last, rebuilt⟩ := Except.bind_eq_ok rebuilt
    cases rebuilt
    obtain ⟨all, here⟩ := conforms_of_slot elements all last
    exact ⟨here .nil, all⟩
  | succ left ih =>
    rw [rebuildSlots_succ] at rebuilt
    obtain ⟨⟨slot, b₁⟩, start, rebuilt⟩ := Except.bind_eq_ok rebuilt
    obtain ⟨⟨between, b₂⟩, separated, rebuilt⟩ := Except.bind_eq_ok rebuilt
    obtain ⟨⟨others, b₃⟩, later, rebuilt⟩ := Except.bind_eq_ok rebuilt
    cases rebuilt
    obtain ⟨all, here⟩ := conforms_of_slot elements all start
    obtain ⟨second, all⟩ := separators all separated
    obtain ⟨conform, all⟩ := ih all later
    exact ⟨here (.cons second conform), all⟩

end Slots

mutual
/-- What a walk makes of a branch by a term conforms to the term. -/
theorem conforms_of_rebuild (rules : RulesConform P n) : ∀ (t : Term) {scope : Scope} {counters : Counters}
    {label : Option String} {b rest : Branch} {tree : Tree}, b.AllMarks P →
    rebuild (toRule n) scope counters label t b = .ok (tree, rest) →
    Term.Conforms (Mark.Elides P) scope label t tree ∧ rest.AllMarks P
  | .literal text, _, _, _, _, _, _, all, rebuilt => by
    rw [rebuild] at rebuilt
    obtain ⟨⟨s, rfl⟩, all⟩ := allMarks_of_pullLeaf all rebuilt
    exact ⟨.literal, all⟩
  | .regex pattern, _, _, _, _, _, _, all, rebuilt => by
    rw [rebuild] at rebuilt
    obtain ⟨⟨s, rfl⟩, all⟩ := allMarks_of_pullLeaf all rebuilt
    exact ⟨.regex, all⟩
  | .backref name default, _, _, _, _, _, _, all, rebuilt => by
    rw [rebuild] at rebuilt
    obtain ⟨⟨s, rfl⟩, all⟩ := allMarks_of_pullLeaf all rebuilt
    exact ⟨.backref, all⟩
  | .rule name, scope, _, _, _, _, _, all, rebuilt => by
    rw [rebuild] at rebuilt
    cases found : scope.find? name with
    | none =>
      rw [found] at rebuilt
      cases rebuilt
    | some value =>
      obtain ⟨body, inner⟩ := value
      rw [found] at rebuilt
      obtain ⟨⟨child, b₁⟩, pulled, rebuilt⟩ := Except.bind_eq_ok rebuilt
      obtain ⟨tree, entered, rebuilt⟩ := Except.bind_eq_ok rebuilt
      cases rebuilt
      obtain ⟨below, all⟩ := allMarks_of_pullBranch all pulled
      exact ⟨.rule found (rules below entered), all⟩
  | .capture name t, _, _, _, _, _, _, all, rebuilt => by
    rw [rebuild] at rebuilt
    obtain ⟨⟨child, b₁⟩, pulled, rebuilt⟩ := Except.bind_eq_ok rebuilt
    obtain ⟨⟨tree, left⟩, inside, rebuilt⟩ := Except.bind_eq_ok rebuilt
    obtain ⟨_, consumed, rebuilt⟩ := Except.bind_eq_ok rebuilt
    cases rebuilt
    obtain ⟨below, all⟩ := allMarks_of_pullBranch all pulled
    exact ⟨.capture (conforms_of_rebuild rules t below inside).1, all⟩
  | .cut t, _, _, _, _, _, _, all, rebuilt => by
    rw [rebuild] at rebuilt
    obtain ⟨conforms, all⟩ := conforms_of_rebuild rules t all rebuilt
    exact ⟨.cut conforms, all⟩
  | .withRules t g, _, _, _, _, _, _, all, rebuilt => by
    rw [rebuild] at rebuilt
    obtain ⟨conforms, all⟩ := conforms_of_rebuild rules t all rebuilt
    exact ⟨.withRules conforms, all⟩
  | .seq ts, _, _, _, _, _, _, all, rebuilt => by
    rw [rebuild] at rebuilt
    obtain ⟨⟨trees, b₁⟩, items, rebuilt⟩ := Except.bind_eq_ok rebuilt
    cases rebuilt
    obtain ⟨conform, all⟩ := conforms_of_rebuildItems rules ts all items
    exact ⟨.seq conform, all⟩
  | .choice ts, _, _, _, _, _, _, all, rebuilt => by
    rw [rebuild] at rebuilt
    obtain ⟨⟨index, b₁⟩, taken, rebuilt⟩ := Except.bind_eq_ok rebuilt
    obtain ⟨⟨child, b₂⟩, chosen, rebuilt⟩ := Except.bind_eq_ok rebuilt
    cases rebuilt
    have all := allMarks_of_pullChoice all taken
    obtain ⟨t, found, conforms, all⟩ := conforms_of_rebuildChosen rules ts all chosen
    exact ⟨.choice found conforms, all⟩
  | .quant t min max, _, _, _, _, _, _, all, rebuilt => by
    rw [rebuild] at rebuilt
    obtain ⟨⟨times, b₁⟩, counted, rebuilt⟩ := Except.bind_eq_ok rebuilt
    obtain ⟨⟨children, b₂⟩, repeated, rebuilt⟩ := Except.bind_eq_ok rebuilt
    cases rebuilt
    obtain ⟨least, most, all⟩ := allMarks_of_pullCount all counted
    obtain ⟨conform, all⟩ := conforms_of_rebuildTimes (conforms_of_rebuild rules t) all repeated
    have length : children.length = times := by rw [conform.length_eq, List.length_replicate]
    subst length
    exact ⟨.quant least most conform, all⟩
  | .list element separator style, _, _, _, _, _, _, all, rebuilt => by
    rw [rebuild] at rebuilt
    obtain ⟨⟨⟨terms, leading, trailing⟩, b₁⟩, shaped, rebuilt⟩ := Except.bind_eq_ok rebuilt
    obtain ⟨⟨slots, b₂⟩, filled, rebuilt⟩ := Except.bind_eq_ok rebuilt
    cases rebuilt
    obtain ⟨enough, said, all⟩ := allMarks_of_pullList all shaped
    obtain ⟨conform, all⟩ := conforms_of_rebuildSlots (conforms_of_rebuild rules element)
      (conforms_of_rebuild rules separator) all filled
    exact ⟨.list ⟨terms, said⟩ (by omega) conform, all⟩
  | .stack _, _, _, _, _, _, _, _, rebuilt => by
    rw [rebuild] at rebuilt
    cases rebuilt

theorem conforms_of_rebuildItems (rules : RulesConform P n) : ∀ (ts : List Term) {scope : Scope} {counters : Counters}
    {b rest : Branch} {trees : List Tree}, b.AllMarks P →
    rebuildItems (toRule n) scope counters ts b = .ok (trees, rest) →
    Term.ConformsEach (Mark.Elides P) scope (ts.map some) trees ∧ rest.AllMarks P
  | [], _, _, _, _, _, all, rebuilt => by
    cases rebuilt
    exact ⟨.nil, all⟩
  | t :: ts, _, _, _, _, _, all, rebuilt => by
    rw [rebuildItems] at rebuilt
    obtain ⟨⟨tree, b₁⟩, first, rebuilt⟩ := Except.bind_eq_ok rebuilt
    obtain ⟨⟨others, b₂⟩, later, rebuilt⟩ := Except.bind_eq_ok rebuilt
    cases rebuilt
    obtain ⟨here, all⟩ := conforms_of_rebuild rules t all first
    obtain ⟨conform, all⟩ := conforms_of_rebuildItems rules ts all later
    exact ⟨.cons here conform, all⟩

/-- An index that is not one of an alternative makes nothing. -/
theorem conforms_of_rebuildChosen (rules : RulesConform P n) : ∀ (ts : List Term) {scope : Scope}
    {counters : Counters} {chosen count index : Nat} {b rest : Branch} {tree : Tree}, b.AllMarks P →
    rebuildChosen (toRule n) scope counters chosen count ts index b = .ok (tree, rest) →
    ∃ t, ts[index]? = some t ∧ Term.Conforms (Mark.Elides P) scope none t tree ∧ rest.AllMarks P
  | [], _, _, _, _, _, _, _, _, _, rebuilt => by
    rw [rebuildChosen] at rebuilt
    cases rebuilt
  | t :: _, _, _, _, _, 0, _, _, _, all, rebuilt => by
    rw [rebuildChosen] at rebuilt
    exact ⟨t, rfl, conforms_of_rebuild rules t all rebuilt⟩
  | _ :: ts, _, _, _, _, index + 1, _, _, _, all, rebuilt => by
    rw [rebuildChosen] at rebuilt
    exact conforms_of_rebuildChosen rules ts all rebuilt
end

end Rebuild

/-- A tree made of the branch of a rule conforms to the rule, however many rules are inside each other. -/
theorem conforms_of_toRule (P : Mark → Prop) (n : Nat) : RulesConform P n := by
  induction n with
  | zero =>
    intro _ _ _ _ _ _ rebuilt
    cases rebuilt
  | succ n ih =>
    intro scope body name b tree all rebuilt
    obtain ⟨⟨made, left⟩, walked, rebuilt⟩ := Except.bind_eq_ok rebuilt
    obtain ⟨_, consumed, rebuilt⟩ := Except.bind_eq_ok rebuilt
    cases rebuilt
    exact (conforms_of_rebuild ih body all walked).1

end Generic

namespace Grammar

open Generic

theorem flatOfGeneric_conforms {g : Grammar} {b : Generic.Branch} {tree : Tree}
    (rebuilt : g.flatOfGeneric b = .ok tree) :
    ∃ rule body, b.rule? = some rule ∧ rule ≠ paddingRule ∧ g.get? rule = some body ∧
      Term.Conforms (Mark.Elides fun m => Node.Bears m (.branch b)) [g] (some rule) body tree := by
  obtain ⟨⟨node, root⟩, pulled, rebuilt⟩ := Except.bind_eq_ok rebuilt
  have pulled := Except.mapError_eq_ok pulled
  split at rebuilt
  · next rule root' same =>
    obtain ⟨rfl, rfl⟩ := Prod.mk.inj same
    have named : b.rule? = some rule := by
      rcases Branch.pull_cases pulled with ⟨-, present, -⟩ | ⟨_, several, -, -⟩
      · rw [Branch.rule?, Branch.one?, present]
      · cases several
    obtain ⟨-, all⟩ := Branch.AllMarks.pull (P := fun m => Node.Bears m (.branch b)) (fun _ bears => bears) pulled
    split at rebuilt
    · next body value =>
      split at value
      · cases value
      · next other => exact ⟨rule, body, named, other, value, conforms_of_toRule _ _ all rebuilt⟩
    · cases rebuilt
  · cases rebuilt

/-- **Reconstruction makes only trees that the grammar can shape, but for the ends of lists.**  Whatever branch
converts to a tree, and whatever grammar the branch was made by: it names a rule, and the tree conforms to that rule
at every node.  Sequences have all their items, choices an alternative of theirs, repetitions a number within the
bounds, and lists elements and separators in turn, grouped as the list says.  Ends of lists are elided only as some
list shape in the branch says; if no shape says so, the lists of the tree have all their ends. -/
theorem ofGeneric_conforms {g : Grammar} {b : Generic.Branch} {tree : Tree} (rebuilt : g.ofGeneric b = .ok tree) :
    ∃ flat rule body, g.eliminateStacks = .ok flat ∧ b.rule? = some rule ∧ rule ≠ paddingRule ∧
      flat.get? rule = some body ∧
      Term.Conforms (Mark.Elides fun m => Node.Bears m (.branch b)) [flat] (some rule) body tree ∧
      ((∀ terms leading trailing, Node.Bears (.list terms leading trailing) (.branch b) →
          leading = false ∧ trailing = false) →
        Term.Conforms ListStyle.Allows [flat] (some rule) body tree) := by
  obtain ⟨flat, eliminated, rebuilt⟩ := Except.bind_eq_ok rebuilt
  obtain ⟨rule, body, named, other, value, conforms⟩ := flatOfGeneric_conforms rebuilt
  refine ⟨flat, rule, body, Except.mapError_eq_ok eliminated, named, other, value, conforms, fun full => ?_⟩
  refine conforms.mono fun style leading trailing ⟨terms, said⟩ => ?_
  obtain ⟨rfl, rfl⟩ := full terms leading trailing said
  exact ⟨nofun, nofun⟩

/-- Letters with commas between them, and none at the ends. -/
def letters : Grammar :=
  ⟨[("letters", .list (.literal "x") (.literal ",") {})]⟩

/-- A branch of letters and commas, whose list shape may say that the first letter is elided. -/
def lettersBranch (terms : Nat) (leading : Bool) (texts : List String) : Generic.Branch :=
  ⟨[("", .many (texts.map fun text => .leaf (.ofText text))), (listField, .many [.mark (.list terms leading false)]),
    (ruleField, .one (.mark (.rule "letters")))]⟩

theorem ofGeneric_conforms_letters : ∃ tree, letters.ofGeneric (lettersBranch 2 false ["x", ",", "x"]) = .ok tree ∧
    ∃ flat rule body, letters.eliminateStacks = .ok flat ∧ flat.get? rule = some body ∧
      Term.Conforms ListStyle.Allows [flat] (some rule) body tree := by
  have runs : (letters.ofGeneric (lettersBranch 2 false ["x", ",", "x"])).isOk = true := by decide +kernel
  cases result : letters.ofGeneric (lettersBranch 2 false ["x", ",", "x"]) with
  | error e =>
    rw [result] at runs
    cases runs
  | ok tree =>
    obtain ⟨flat, rule, body, eliminated, -, -, value, -, full⟩ := ofGeneric_conforms result
    have complete : (lettersBranch 2 false ["x", ",", "x"]).AllMarks fun m =>
        ∀ terms leading trailing, m = .list terms leading trailing → leading = false ∧ trailing = false := by
      rw [Branch.allMarks_iff]
      simp [lettersBranch, Field.values]
    refine ⟨tree, rfl, flat, rule, body, eliminated, value, full fun terms leading trailing bears => ?_⟩
    exact complete _ bears terms leading trailing rfl

/-- A branch of another list makes a list begin with a separator that may not begin with one. -/
theorem ofGeneric_elides : (letters.compile {}).isOk = true ∧
    ∃ tree, letters.ofGeneric (lettersBranch 2 true [",", "x"]) = .ok tree ∧
      ∀ scope label, ¬ Term.Conforms ListStyle.Allows scope label (.list (.literal "x") (.literal ",") {}) tree := by
  have checked : (letters.compile {}).isOk = true ∧
      (letters.ofGeneric (lettersBranch 2 true [",", "x"])).toOption.any (fun tree =>
        tree.slots?.any fun slots => slots.head?.any isElided) = true := by
    decide +kernel
  obtain ⟨compiles, checked⟩ := checked
  cases result : letters.ofGeneric (lettersBranch 2 true [",", "x"]) with
  | error e =>
    rw [result] at checked
    cases checked
  | ok tree =>
    refine ⟨compiles, tree, rfl, fun scope label conforms => ?_⟩
    obtain ⟨leading, trailing, left, slots, allowed, opened, -, each⟩ := conforms.slots
    rw [result, Except.toOption, Option.any_some, opened, Option.any_some] at checked
    obtain ⟨first, last⟩ := allowed
    have notLeading : leading = false := by
      cases leading with
      | false => rfl
      | true => cases first rfl
    have notTrailing : trailing = false := by
      cases trailing with
      | false => rfl
      | true => cases last rfl
    subst notLeading notTrailing
    cases left <;> obtain _ | ⟨h, -⟩ | _ := each <;> cases h <;> cases checked

end Grammar
end GrammarKit
