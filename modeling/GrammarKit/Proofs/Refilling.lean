/-
Module: GrammarKit.Proofs.Refilling
Purpose: The walk from generic trees to trees and the walk back, on any branch at all.  Whatever values the first
  walk takes out of a branch, the second puts into one, in the same fields and the same order.  A branch that the
  first walk uses up is therefore made again, up to fields that hold nothing.
Main exports: Taken, Refills, refills_of_rebuild, refilled_of_toRule
-/
import GrammarKit.Proofs.BlankFields
import GrammarKit.Proofs.Bridge

namespace GrammarKit
namespace Generic

open Counters

/-! ### Taking values -/

/-- Entries are taken out of a branch one after the other, until another branch is left. -/
inductive Taken (counters : Counters) : Entries → Branch → Branch → Prop
  | done {b} : Taken counters [] b b
  | next {name node entries b b₁ b₂} : b.pull name (counters.isSingle name) = .ok (node, b₁) →
      Taken counters entries b₁ b₂ → Taken counters ((name, node) :: entries) b b₂

namespace Taken

variable {counters : Counters} {entries entries' : Entries} {b b₁ b₂ : Branch}

theorem append (h : Taken counters entries b b₁) (h' : Taken counters entries' b₁ b₂) :
    Taken counters (entries ++ entries') b b₂ := by
  induction h with
  | done => exact h'
  | next pulled _ ih => exact .next pulled (ih h')

theorem sorted (h : Taken counters entries b b₁) (sorted : b.Sorted) : b₁.Sorted := by
  induction h with
  | done => exact sorted
  | next pulled _ ih => exact ih (sorted.pull pulled).2

/-- Nothing is taken out of a field that is not there. -/
theorem values_eq_nil (h : Taken counters entries b b₁) {name : String} (absent : b.get? name = none) :
    entries.values name = [] := by
  induction h with
  | done => rfl
  | @next other node entries b b₁ b₂ pulled _ ih =>
    have different : name ≠ other := by
      rintro rfl
      rw [Branch.pull, absent] at pulled
      cases pulled
    rw [Entries.values_cons_of_ne different]
    exact ih ((Branch.get?_of_pull pulled different).trans absent)

/-- A branch from which entries are taken until it is used up offers just these. -/
theorem offers (h : Taken counters entries b b₁) (ordered : b.Ordered) (consumed : b₁.ensureConsumed = .ok ()) :
    Offers counters entries b := by
  refine ⟨ordered, fun name => ?_⟩
  clear ordered
  induction h with
  | done =>
    rw [Branch.offer_of_consumed consumed]
    exact .absent
  | @next other node entries b b₁ b₂ pulled _ ih =>
    have later := ih consumed
    by_cases same : name = other
    · subst same
      rw [Entries.values_cons_self]
      rcases Branch.pull_cases pulled with ⟨single, present, rfl⟩ | ⟨nodes, single, present, rfl⟩
      · have gone : Branch.offer (b.erase name) name = none := by
          rw [Branch.offer, Table.get?_erase_self]
          rfl
        have here : b.offer name = some (.one node) := by
          rw [Branch.offer, present]
          rfl
        rw [gone, single] at later
        rw [here, single]
        generalize entries.values name = values at later ⊢
        cases later
        exact .one
      · have here : b.offer name = some (.many (node :: nodes)) := by
          rw [Branch.offer, present]
          rfl
        rw [Branch.offer, Table.get?_insert_self, single] at later
        rw [here, single]
        generalize entries.values name = values at later ⊢
        cases nodes with
        | nil =>
          have later : FieldHolds false values none := later
          cases later
          exact .many
        | cons second nodes =>
          have later : FieldHolds false values (some (.many (second :: nodes))) := later
          cases later
          exact .many
    · rw [Entries.values_cons_of_ne same, Branch.offer, ← Branch.get?_of_pull pulled same]
      exact later

end Taken

/-! ### Taking and putting back -/

/-- What was taken out of a branch to leave another one is what a way of adding entries adds, up to fields that
hold nothing. -/
def Refills (counters : Counters) (write : Branch → Except Error Branch) (b b' : Branch) : Prop :=
  ∃ entries copies, Taken counters entries b b' ∧ Copies entries copies ∧ Puts counters write copies

/-- A branch for the fields of a term is another one up to fields that hold nothing, and lacks fields that the other
one lacks, unless they occur in the term. -/
structure Remade (t : Term) (b child : Branch) : Prop where
  ordered : child.Ordered
  same : child.prune = b.prune
  absent : ∀ field, occurrences field t = 0 → b.get? field = none → child.get? field = none

namespace Refills

variable {counters : Counters} {write write' : Branch → Except Error Branch} {b b₁ b₂ : Branch}

theorem done (counters : Counters) (b : Branch) : Refills counters .ok b b :=
  ⟨[], [], .done, rfl, Puts.done counters⟩

theorem sorted (h : Refills counters write b b₁) (sorted : b.Sorted) : b₁.Sorted := by
  obtain ⟨_, _, taken, -, -⟩ := h
  exact taken.sorted sorted

/-- One part after the other. -/
theorem bind (h : Refills counters write b b₁) (h' : Refills counters write' b₁ b₂) :
    Refills counters (fun b => write b >>= write') b b₂ := by
  obtain ⟨entries, copies, taken, same, puts⟩ := h
  obtain ⟨entries', copies', taken', same', puts'⟩ := h'
  exact ⟨_, _, taken.append taken', same.append same', Puts.bind puts puts'⟩

theorem congr (h : Refills counters write b b₁) (same : ∀ b, write' b = write b) : Refills counters write' b b₁ := by
  rwa [show write' = write from funext same]

/-- A single entry. -/
theorem entry {name : String} {node copy : Node} (pulled : lift (b.pull name (counters.isSingle name)) = .ok (node, b₁))
    (same : copy.prune = node.prune) (puts : Puts counters write [(name, copy)]) : Refills counters write b b₁ := by
  have pulled : b.pull name (counters.isSingle name) = .ok (node, b₁) := Except.mapError_eq_ok pulled
  refine ⟨[(name, node)], [(name, copy)], .next pulled .done, ?_, puts⟩
  simp [Copies, same]

/-- A leaf. -/
theorem leaf {field : String} (t : Term) {tree : Tree} (pulled : pullLeaf counters field b = .ok (tree, b₁)) :
    tree ≠ .elided ∧ Refills counters (fun b => addLeaf counters field t b tree) b b₁ := by
  obtain ⟨⟨node, rest⟩, first, second⟩ := Except.bind_eq_ok pulled
  cases node with
  | leaf s =>
    cases second
    exact ⟨nofun, .entry first rfl (Transfer.leaf counters 0 field t s).write⟩
  | branch _ => cases second
  | mark _ => cases second

/-- A branch, which may come back pruned. -/
theorem branch {name : String} {child copy : Branch} (pulled : pullBranch counters name b = .ok (child, b₁))
    (same : copy.prune = child.prune) :
    Refills counters (fun b => lift (b.add name (.branch copy) (counters.isSingle name))) b b₁ := by
  obtain ⟨⟨node, rest⟩, first, second⟩ := Except.bind_eq_ok pulled
  cases node with
  | branch _ =>
    cases second
    have same : (Node.branch copy).prune = (Node.branch child).prune := congrArg Node.branch same
    exact .entry first same (Transfer.branch counters 0 name copy).write
  | leaf _ => cases second
  | mark _ => cases second

/-- A bookkeeping entry. -/
theorem mark {field : String} (several : counters.isSingle field = false) {m : Mark}
    (pulled : pullMark field b = .ok (m, b₁)) : Refills counters (addMark field m) b b₁ := by
  obtain ⟨⟨node, rest⟩, first, second⟩ := Except.bind_eq_ok pulled
  cases node with
  | mark _ =>
    cases second
    rw [← several] at first
    exact .entry first rfl (Transfer.mark 0 several m).write
  | leaf _ => cases second
  | branch _ => cases second

theorem choice (several : counters.isSingle choiceField = false) {index : Nat}
    (pulled : pullChoice b = .ok (index, b₁)) : Refills counters (addMark choiceField (.choice index)) b b₁ := by
  obtain ⟨⟨m, rest⟩, first, second⟩ := Except.bind_eq_ok pulled
  cases m <;> cases second
  exact .mark several first

theorem count (several : counters.isSingle countField = false) {min max n : Nat}
    (pulled : pullCount min max b = .ok (n, b₁)) : Refills counters (addMark countField (.count n)) b b₁ := by
  obtain ⟨⟨m, rest⟩, first, second⟩ := Except.bind_eq_ok pulled
  cases m with
  | count n =>
    simp only at second
    split at second
    · cases second
    · cases second
      exact .mark several first
  | _ => cases second

/-- The shape of a list has room for its elided ends. -/
theorem list (several : counters.isSingle listField = false) {terms : Nat} {leading trailing : Bool}
    (pulled : pullList b = .ok ((terms, leading, trailing), b₁)) : 1 + leading.toNat + trailing.toNat ≤ terms ∧
      Refills counters (addMark listField (.list terms leading trailing)) b b₁ := by
  obtain ⟨⟨m, rest⟩, first, second⟩ := Except.bind_eq_ok pulled
  cases m with
  | list terms leading trailing =>
    simp only at second
    split at second
    · cases second
    · next enough =>
      cases second
      exact ⟨Nat.not_lt.mp enough, .mark several first⟩
  | _ => cases second

/-- Adding to an empty branch what was taken out of another one until it was used up makes that one again. -/
theorem whole {t : Term} (h : Refills (ofTerm t) write b b₁) (sorted : b.Sorted)
    (consumed : b₁.ensureConsumed = .ok ()) : ∃ child, write (ofTerm t).emptyBranch = .ok child ∧ Remade t b child := by
  obtain ⟨entries, copies, taken, same, puts⟩ := h
  have offers := taken.offers sorted.ordered consumed
  have fits : Fitting (ofTerm t) ([] ++ copies) := same.fitting offers.fitting
  obtain ⟨child, made, holds, frame⟩ := puts (Holds.empty (ofTerm_spec t).1) fits
  refine ⟨child, made, holds.ordered, offers.prune_eq (Holds.offers holds) same, ?_⟩
  intro field never absent
  have none : copies.values field = [] := by
    have alike := same.values field
    rw [taken.values_eq_nil absent] at alike
    exact List.map_eq_nil_iff.mp alike
  rw [frame field none, get?_emptyBranch never]

end Refills

theorem sorted_of_pullBranch {counters : Counters} {name : String} {b child rest : Branch} (sorted : b.Sorted)
    (pulled : pullBranch counters name b = .ok (child, rest)) : child.Sorted := by
  obtain ⟨⟨node, left⟩, first, second⟩ := Except.bind_eq_ok pulled
  cases node with
  | branch _ =>
    cases second
    exact (sorted.pull (Except.mapError_eq_ok first)).1
  | leaf _ => cases second
  | mark _ => cases second

/-! ### Both walks -/

/-- A tree that was made of the branch of a rule has a branch by the same rule again, through as many rules inside
each other, and it is the same branch up to fields that hold nothing. -/
def RulesRefilled (n : Nat) : Prop :=
  ∀ {scope : Scope} {body : Term} {name : String} {b : Branch} {tree : Tree}, b.Sorted →
    toRule n scope body name b = .ok tree →
      tree ≠ .elided ∧ ∃ child, ofRule n scope body tree = .ok child ∧ Remade body b child

section Walks

variable {n : Nat} {scope : Scope} {counters : Counters} {b b' : Branch}

/-- Trees one after the other, all by one term. -/
theorem refills_of_rebuildTimes {read : Branch → Except Error (Tree × Branch)}
    {write : Tree → Branch → Except Error Branch}
    (step : ∀ {b tree b'}, b.Sorted → read b = .ok (tree, b') → Refills counters (write tree) b b') {times : Nat}
    {trees : List Tree} (sorted : b.Sorted) (rebuilt : rebuildTimes read times b = .ok (trees, b')) :
    trees.length = times ∧ Refills counters (fun b => trees.foldlM (fun b child => write child b) b) b b' := by
  induction times generalizing b trees with
  | zero =>
    cases rebuilt
    exact ⟨rfl, .done counters b'⟩
  | succ times ih =>
    obtain ⟨⟨tree, b₁⟩, first, rebuilt⟩ := Except.bind_eq_ok rebuilt
    obtain ⟨⟨others, b₂⟩, rest, rebuilt⟩ := Except.bind_eq_ok rebuilt
    cases rebuilt
    have here := step sorted first
    obtain ⟨length, later⟩ := ih (here.sorted sorted) rest
    refine ⟨congrArg Nat.succ length, (here.bind later).congr fun b => ?_⟩
    rw [List.foldlM_cons]

section Slots

variable {read read' : Branch → Except Error (Tree × Branch)} {write write' : Tree → Branch → Except Error Branch}
  (element : ∀ {b tree b'}, b.Sorted → read b = .ok (tree, b') → tree ≠ .elided ∧ Refills counters (write tree) b b')
include element

/-- A slot of a list: nothing, or else a tree. -/
theorem refills_of_slot {elided : Bool} {slot : Tree} (sorted : b.Sorted)
    (rebuilt : (if elided then .ok (.elided, b) else read b) = Except.ok (slot, b')) :
    (if elided then (· = .elided) else (· ≠ .elided) : Tree → Prop) slot ∧
      Refills counters (Term.walkSlots write write' [slot]) b b' := by
  cases elided with
  | true =>
    cases rebuilt
    exact ⟨rfl, .done counters b⟩
  | false =>
    obtain ⟨present, refills⟩ := element sorted rebuilt
    refine ⟨present, refills.congr fun b => ?_⟩
    rw [Tree.walkSlots_present _ _ _ _ present]
    exact bind_pure _

/-- The slots of a list, in which the elements at either end may be elided. -/
theorem refills_of_rebuildSlots
    (separator : ∀ {b tree b'}, b.Sorted → read' b = .ok (tree, b') →
      tree ≠ .elided ∧ Refills counters (write' tree) b b')
    {leading trailing first : Bool} {left : Nat} {slots : List Tree} (sorted : b.Sorted)
    (rebuilt : rebuildSlots read read' leading trailing left first b = .ok (slots, b')) :
    Term.Fits (slotPattern (· ≠ .elided) (· ≠ .elided) (· = .elided) leading trailing left first) slots ∧
      Refills counters (Term.walkSlots write write' slots) b b' := by
  induction left generalizing first b slots with
  | zero =>
    rw [rebuildSlots_zero] at rebuilt
    obtain ⟨⟨slot, b₁⟩, last, rebuilt⟩ := Except.bind_eq_ok rebuilt
    cases rebuilt
    obtain ⟨here, refills⟩ := refills_of_slot element sorted last
    exact ⟨⟨here, trivial⟩, refills⟩
  | succ left ih =>
    rw [rebuildSlots_succ] at rebuilt
    obtain ⟨⟨slot, b₁⟩, start, rebuilt⟩ := Except.bind_eq_ok rebuilt
    obtain ⟨⟨between, b₂⟩, separated, rebuilt⟩ := Except.bind_eq_ok rebuilt
    obtain ⟨⟨others, b₃⟩, rest, rebuilt⟩ := Except.bind_eq_ok rebuilt
    cases rebuilt
    obtain ⟨here, refills⟩ := refills_of_slot element sorted start
    have sorted := refills.sorted sorted
    obtain ⟨present, refills'⟩ := separator sorted separated
    obtain ⟨fits, later⟩ := ih (refills'.sorted sorted) rest
    refine ⟨⟨here, present, fits⟩, (refills.bind (refills'.bind later)).congr fun b => ?_⟩
    rw [Tree.walkSlots_cons]
    congr 1
    funext b
    exact Tree.walkSlots_present _ _ _ _ present

end Slots

mutual
/-- What a walk takes out of a branch to make a tree of a term, the walk over that tree adds again. -/
theorem refills_of_rebuild (rules : RulesRefilled n) : ∀ (t : Term) {scope : Scope} {counters : Counters}
    {label : Option String} {b b' : Branch} {tree : Tree}, counters.Covers t → b.Sorted →
    rebuild (toRule n) scope counters label t b = .ok (tree, b') →
    tree ≠ .elided ∧ Refills counters (collect (ofRule n) scope counters t tree) b b'
  | .literal text, _, _, _, _, _, _, _, _, rebuilt => by
    rw [rebuild] at rebuilt
    obtain ⟨present, refills⟩ := Refills.leaf (.literal text) rebuilt
    exact ⟨present, refills.congr fun b => by rw [collect]⟩
  | .regex pattern, _, _, _, _, _, _, _, _, rebuilt => by
    rw [rebuild] at rebuilt
    obtain ⟨present, refills⟩ := Refills.leaf (.regex pattern) rebuilt
    exact ⟨present, refills.congr fun b => by rw [collect]⟩
  | .backref name default, _, _, _, _, _, _, _, _, rebuilt => by
    rw [rebuild] at rebuilt
    obtain ⟨present, refills⟩ := Refills.leaf (.backref name default) rebuilt
    exact ⟨present, refills.congr fun b => by rw [collect]⟩
  | .rule name, scope, counters, _, b, b', tree, _, sorted, rebuilt => by
    rw [rebuild] at rebuilt
    cases found : scope.find? name with
    | none =>
      rw [found] at rebuilt
      cases rebuilt
    | some value =>
      obtain ⟨body, inner⟩ := value
      rw [found] at rebuilt
      obtain ⟨⟨child, b₁⟩, pulled, rebuilt⟩ := Except.bind_eq_ok rebuilt
      obtain ⟨tree, entered, rebuilt⟩ := Except.bind_eq_ok rebuilt
      cases rebuilt
      obtain ⟨present, copy, made, remade⟩ := rules (sorted_of_pullBranch sorted pulled) entered
      refine ⟨present, (Refills.branch pulled remade.same).congr fun b => ?_⟩
      rw [collect, found]
      show (ofRule n inner body tree >>= _) = _
      rw [made]
      rfl
  | .capture name t, scope, counters, _, b, b', tree, _, sorted, rebuilt => by
    rw [rebuild] at rebuilt
    obtain ⟨⟨child, b₁⟩, pulled, rebuilt⟩ := Except.bind_eq_ok rebuilt
    obtain ⟨⟨tree, left⟩, inside, rebuilt⟩ := Except.bind_eq_ok rebuilt
    obtain ⟨_, consumed, rebuilt⟩ := Except.bind_eq_ok rebuilt
    cases rebuilt
    have below := sorted_of_pullBranch sorted pulled
    obtain ⟨present, refills⟩ := refills_of_rebuild rules t (covers_ofTerm t) below inside
    obtain ⟨copy, made, remade⟩ := refills.whole below (Except.mapError_eq_ok consumed)
    refine ⟨present, (Refills.branch pulled remade.same).congr fun b => ?_⟩
    rw [collect]
    show (collect (ofRule n) scope (ofTerm t) t tree (ofTerm t).emptyBranch >>= _) = _
    rw [made]
    rfl
  | .cut t, _, _, _, _, _, _, covers, sorted, rebuilt => by
    rw [rebuild] at rebuilt
    obtain ⟨present, refills⟩ := refills_of_rebuild rules t covers sorted rebuilt
    exact ⟨present, refills.congr fun b => by rw [collect]⟩
  | .withRules t g, _, _, _, _, _, _, covers, sorted, rebuilt => by
    rw [rebuild] at rebuilt
    obtain ⟨present, refills⟩ := refills_of_rebuild rules t covers sorted rebuilt
    exact ⟨present, refills.congr fun b => by rw [collect]⟩
  | .seq ts, scope, counters, _, _, _, _, covers, sorted, rebuilt => by
    rw [rebuild] at rebuilt
    obtain ⟨⟨trees, b₁⟩, items, rebuilt⟩ := Except.bind_eq_ok rebuilt
    cases rebuilt
    have each : ∀ t ∈ ts, counters.Covers t := fun t member => covers.mono fun _ => occurrences_le_all member
    obtain ⟨length, refills⟩ := refills_of_rebuildItems rules ts each sorted items
    refine ⟨nofun, refills.congr fun b => ?_⟩
    rw [collect]
    show (if _ then _ else _) = _
    rw [if_pos length]
  | .choice ts, scope, counters, _, _, _, _, covers, sorted, rebuilt => by
    rw [rebuild] at rebuilt
    obtain ⟨⟨index, b₁⟩, taken, rebuilt⟩ := Except.bind_eq_ok rebuilt
    obtain ⟨⟨child, b₂⟩, chosen, rebuilt⟩ := Except.bind_eq_ok rebuilt
    cases rebuilt
    have several : counters.isSingle choiceField = false := covers choiceField (by simp [occurrences])
    have marked := Refills.choice several taken
    have each : ∀ t ∈ ts, counters.Covers t := fun t member => covers.mono fun field =>
      Nat.le_trans (occurrences_le_most member) (Nat.le_add_left _ _)
    obtain ⟨t, found, refills⟩ := refills_of_rebuildChosen rules ts each (marked.sorted sorted) chosen
    refine ⟨nofun, (marked.bind refills).congr fun b => ?_⟩
    rw [collect]
    show collectChosen (ofRule n) scope counters _ _ index ts index child b = _
    rw [collectChosen_eq counters _ _ index b found]
  | .quant t min max, scope, counters, _, _, _, _, covers, sorted, rebuilt => by
    rw [rebuild] at rebuilt
    obtain ⟨⟨times, b₁⟩, counted, rebuilt⟩ := Except.bind_eq_ok rebuilt
    obtain ⟨⟨children, b₂⟩, repeated, rebuilt⟩ := Except.bind_eq_ok rebuilt
    cases rebuilt
    have several : counters.isSingle countField = false := covers countField (by simp [occurrences])
    have marked := Refills.count several counted
    have inner : counters.Covers t := covers.mono fun field => by
      rw [occurrences]
      refine Nat.le_trans (Nat.le_mul_of_pos_left _ ?_) (Nat.le_add_left _ _)
      split <;> omega
    obtain ⟨length, refills⟩ := refills_of_rebuildTimes
      (fun sorted rebuilt => (refills_of_rebuild rules t inner sorted rebuilt).2) (marked.sorted sorted) repeated
    subst length
    refine ⟨nofun, (marked.bind refills).congr fun b => ?_⟩
    rw [collect]
    rfl
  | .list element separator style, scope, counters, label, _, _, _, covers, sorted, rebuilt => by
    rw [rebuild] at rebuilt
    obtain ⟨⟨⟨terms, leading, trailing⟩, b₁⟩, shaped, rebuilt⟩ := Except.bind_eq_ok rebuilt
    obtain ⟨⟨slots, b₂⟩, filled, rebuilt⟩ := Except.bind_eq_ok rebuilt
    cases rebuilt
    have several : counters.isSingle listField = false := by
      apply covers listField
      rw [occurrences, if_pos rfl]
      omega
    obtain ⟨enough, marked⟩ := Refills.list several shaped
    have elements : counters.Covers element := covers.mono fun field => by rw [occurrences]; omega
    have separators : counters.Covers separator := covers.mono fun field => by rw [occurrences]; omega
    obtain ⟨fits, refills⟩ := refills_of_rebuildSlots (refills_of_rebuild rules element elements)
      (refills_of_rebuild rules separator separators) (marked.sorted sorted) filled
    obtain ⟨left, rfl⟩ : ∃ left, terms = left + 1 := ⟨terms - 1, by omega⟩
    have shape : listMark slots = .list (left + 1) leading trailing :=
      listMark_of_fits (fun present => present) (by omega) fits
    refine ⟨Tree.ofSlots_ne_elided _ _ fits.length_slots, (marked.bind refills).congr fun b => ?_⟩
    rw [collect, Tree.listSlots_ofSlots _ _ _ fits.length_slots]
    show (addMark listField (listMark slots) b >>= _) = _
    rw [shape]
  | .stack _, _, _, _, _, _, _, _, _, rebuilt => by
    rw [rebuild] at rebuilt
    cases rebuilt

theorem refills_of_rebuildItems (rules : RulesRefilled n) : ∀ (ts : List Term) {scope : Scope} {counters : Counters}
    {b b' : Branch} {trees : List Tree}, (∀ t ∈ ts, counters.Covers t) → b.Sorted →
    rebuildItems (toRule n) scope counters ts b = .ok (trees, b') →
    trees.length = ts.length ∧ Refills counters (collectItems (ofRule n) scope counters ts trees) b b'
  | [], _, counters, b, _, _, _, _, rebuilt => by
    cases rebuilt
    exact ⟨rfl, .done counters _⟩
  | t :: ts, scope, counters, b, b', trees, covers, sorted, rebuilt => by
    obtain ⟨here, others⟩ := List.forall_mem_cons.mp covers
    rw [rebuildItems] at rebuilt
    obtain ⟨⟨tree, b₁⟩, first, rebuilt⟩ := Except.bind_eq_ok rebuilt
    obtain ⟨⟨rest, b₂⟩, second, rebuilt⟩ := Except.bind_eq_ok rebuilt
    cases rebuilt
    obtain ⟨-, refills⟩ := refills_of_rebuild rules t here sorted first
    obtain ⟨length, later⟩ := refills_of_rebuildItems rules ts others (refills.sorted sorted) second
    exact ⟨congrArg Nat.succ length, (refills.bind later).congr fun b => by rw [collectItems]⟩

theorem refills_of_rebuildChosen (rules : RulesRefilled n) : ∀ (ts : List Term) {scope : Scope}
    {counters : Counters} {chosen count index : Nat} {b b' : Branch} {tree : Tree}, (∀ t ∈ ts, counters.Covers t) →
    b.Sorted → rebuildChosen (toRule n) scope counters chosen count ts index b = .ok (tree, b') →
    ∃ t, ts[index]? = some t ∧ Refills counters (collect (ofRule n) scope counters t tree) b b'
  | [], _, _, _, _, _, _, _, _, _, _, rebuilt => by
    rw [rebuildChosen] at rebuilt
    cases rebuilt
  | t :: _, _, _, _, _, 0, _, _, _, covers, sorted, rebuilt => by
    rw [rebuildChosen] at rebuilt
    exact ⟨t, rfl, (refills_of_rebuild rules t (covers t List.mem_cons_self) sorted rebuilt).2⟩
  | _ :: ts, _, _, _, _, index + 1, _, _, _, covers, sorted, rebuilt => by
    rw [rebuildChosen] at rebuilt
    exact refills_of_rebuildChosen rules ts (List.forall_mem_cons.mp covers).2 sorted rebuilt
end

end Walks

/-- What was made of the branch of a rule has that branch again, however many rules are inside each other. -/
theorem refilled_of_toRule (n : Nat) : RulesRefilled n := by
  induction n with
  | zero =>
    intro _ _ _ _ _ _ rebuilt
    cases rebuilt
  | succ n ih =>
    intro scope body name b tree sorted rebuilt
    obtain ⟨⟨made, left⟩, walked, rebuilt⟩ := Except.bind_eq_ok rebuilt
    obtain ⟨_, consumed, rebuilt⟩ := Except.bind_eq_ok rebuilt
    cases rebuilt
    obtain ⟨present, refills⟩ := refills_of_rebuild ih body (covers_ofTerm body) sorted walked
    exact ⟨present, refills.whole sorted (Except.mapError_eq_ok consumed)⟩

end Generic
end GrammarKit
