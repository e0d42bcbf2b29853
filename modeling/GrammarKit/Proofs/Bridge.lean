/-
Module: GrammarKit.Proofs.Bridge
Purpose: The walk from trees to generic trees and the walk back, side by side.  For a tree that conforms to
  a term, both walks go through the same fields in the same order: the one adds what the other takes, and
  the tree comes out again.  The counters of a term leave room for all that is added.
Main exports: Within, Bridged, bridged_of_shaped, bridgedRule_of_shaped
-/
import GrammarKit.Proofs.Conformance
import GrammarKit.Proofs.FieldStore

namespace GrammarKit
namespace Generic

open Counters

/-! ### Room for values -/

/-- Entries of which there are no more than a bound allows, as far as it allows at most one. -/
def Within (occ : String → Nat) (entries : Entries) : Prop :=
  ∀ field, occ field ≤ 1 → (entries.values field).length ≤ occ field

namespace Within

variable {occ occ' : String → Nat} {entries entries' : Entries}

theorem nil (occ : String → Nat) : Within occ [] :=
  fun _ _ => Nat.zero_le _

theorem mono (h : Within occ entries) (le : ∀ field, occ field ≤ occ' field) : Within occ' entries := by
  intro field few
  have here := le field
  have := h field (Nat.le_trans here few)
  omega

theorem append (h : Within occ entries) (h' : Within occ' entries') :
    Within (fun field => occ field + occ' field) (entries ++ entries') := by
  intro field few
  simp only at few ⊢
  have := h field (by omega)
  have := h' field (by omega)
  rw [Entries.values_append, List.length_append]
  omega

/-- One value where at least one is allowed. -/
theorem single {name : String} (room : 0 < occ name) (node : Node) : Within occ [(name, node)] := by
  intro field _
  by_cases same : field = name
  · subst same
    rw [Entries.values_cons_self, Entries.values_nil]
    exact room
  · rw [Entries.values_cons_of_ne same, Entries.values_nil]
    exact Nat.zero_le _

theorem length_values_flatten {parts : List Entries} (each : ∀ part ∈ parts, Within occ part)
    {field : String} (few : occ field ≤ 1) :
    (Entries.values field parts.flatten).length ≤ parts.length * occ field := by
  induction parts with
  | nil => exact Nat.zero_le _
  | cons part parts ih =>
    have here := each part List.mem_cons_self field few
    have others := ih fun part member => each part (List.mem_cons_of_mem _ member)
    rw [List.flatten_cons, Entries.values_append, List.length_append, List.length_cons, Nat.succ_mul]
    omega

/-- Parts of which there are no more than some number, unless the number is two or more. -/
theorem flatten {parts : List Entries} {times : Nat} (each : ∀ part ∈ parts, Within occ part)
    (positive : 0 < times) (few : parts.length ≤ times ∨ 2 ≤ times) :
    Within (fun field => times * occ field) parts.flatten := by
  intro field bounded
  simp only at bounded ⊢
  have once : occ field ≤ 1 := Nat.le_trans (Nat.le_mul_of_pos_left _ positive) bounded
  have total := length_values_flatten each once
  rcases few with few | often
  · exact Nat.le_trans total (Nat.mul_le_mul_right _ few)
  · have : 2 * occ field ≤ times * occ field := Nat.mul_le_mul_right _ often
    have never : occ field = 0 := by omega
    rw [never, Nat.mul_zero] at total
    exact Nat.le_trans total (Nat.zero_le _)

/-- What stays within the counts of a whole term fits into its branch. -/
theorem fitting {t : Term} (h : Within (occurrences · t) entries) : Fitting (ofTerm t) entries := by
  intro field single
  have one := isSingle_ofTerm single
  have few : (entries.values field).length ≤ occurrences field t := h field (Nat.le_of_eq one)
  omega

end Within

/-! ### Bookkeeping -/

section Marks

variable {counters : Counters}

/-- The alternative that was taken. -/
theorem Transfer.choice (depth : Nat) (several : counters.isSingle choiceField = false) (index : Nat) :
    Transfer counters depth (addMark choiceField (.choice index)) pullChoice
      [(choiceField, .mark (.choice index))] index := by
  have entry := Transfer.mark depth several (.choice index)
  refine ⟨entry.write, fun small {_ b} holds => ?_⟩
  obtain ⟨b', pulled, holds⟩ := entry.read small holds
  exact ⟨b', by rw [pullChoice, pulled]; rfl, holds⟩

/-- A number of repetitions within the bounds. -/
theorem Transfer.count (depth : Nat) (several : counters.isSingle countField = false) {n min max : Nat}
    (least : min ≤ n) (most : max ≠ 0 → n ≤ max) :
    Transfer counters depth (addMark countField (.count n)) (pullCount min max)
      [(countField, .mark (.count n))] n := by
  have entry := Transfer.mark depth several (.count n)
  refine ⟨entry.write, fun small {_ b} holds => ?_⟩
  obtain ⟨b', pulled, holds⟩ := entry.read small holds
  have inside : ¬(n < min ∨ (max ≠ 0 ∧ n > max)) := by
    rintro (below | ⟨bounded, above⟩)
    · exact absurd least (Nat.not_le.mpr below)
    · exact absurd (most bounded) (Nat.not_le.mpr above)
  refine ⟨b', ?_, holds⟩
  rw [pullCount, pulled]
  show (if _ then _ else _) = _
  rw [if_neg inside]

/-- The shape of a list that has more elements than elided ones. -/
theorem Transfer.list (depth : Nat) (several : counters.isSingle listField = false) {left : Nat}
    {leading trailing : Bool} (terms : leading.toNat + trailing.toNat ≤ left) :
    Transfer counters depth (addMark listField (.list (left + 1) leading trailing)) pullList
      [(listField, .mark (.list (left + 1) leading trailing))] (left + 1, leading, trailing) := by
  have entry := Transfer.mark depth several (.list (left + 1) leading trailing)
  refine ⟨entry.write, fun small {_ b} holds => ?_⟩
  obtain ⟨b', pulled, holds⟩ := entry.read small holds
  refine ⟨b', ?_, holds⟩
  rw [pullList, pulled]
  show (if _ then _ else _) = _
  rw [if_neg (by omega)]

end Marks

/-- Whether a slot was left out. -/
def isElided : Tree → Bool
  | .elided => true
  | _ => false

theorem isElided_eq_false {tree : Tree} (present : tree ≠ .elided) : isElided tree = false := by
  cases tree with
  | elided => exact absurd rfl present
  | _ => rfl

theorem listMark_eq (slots : List Tree) :
    listMark slots = .list ((slots.length + 1) / 2) (slots.head?.any isElided)
      (decide (slots.length > 1) && slots.getLast?.any isElided) :=
  rfl

section Slots

variable {element separator : Tree → Prop} {leading trailing : Bool}

/-- The last of several slots is elided if the list ends with a separator. -/
theorem getLast?_of_fits (present : ∀ {slot}, element slot → slot ≠ .elided) {left : Nat}
    {slots : List Tree}
    (fits : Term.Fits (slotPattern element separator (· = .elided) leading trailing left false) slots) :
    slots.getLast?.any isElided = trailing := by
  induction left generalizing slots with
  | zero =>
    match slots, fits with
    | [slot], ⟨last, _⟩ =>
      simp only [Bool.false_and, Bool.false_or] at last
      cases trailing with
      | false => exact isElided_eq_false (present last)
      | true => exact last ▸ rfl
  | succ left ih =>
    match slots, fits with
    | _ :: between :: slots, ⟨_, _, fits⟩ =>
      have more : slots ≠ [] := by
        rintro rfl
        have := fits.length_slots
        simp at this
      rw [List.getLast?_cons_of_ne_nil (List.cons_ne_nil _ _), List.getLast?_cons_of_ne_nil more]
      exact ih fits

/-- What is kept of a list says how many elements it has and which ends are elided. -/
theorem listMark_of_fits (present : ∀ {slot}, element slot → slot ≠ .elided) {left : Nat}
    {slots : List Tree} (terms : leading.toNat + trailing.toNat ≤ left)
    (fits : Term.Fits (slotPattern element separator (· = .elided) leading trailing left true) slots) :
    listMark slots = .list (left + 1) leading trailing := by
  have length := fits.length_slots
  have number : (slots.length + 1) / 2 = left + 1 := by omega
  rw [listMark_eq, number]
  cases left with
  | zero =>
    match slots, fits with
    | [slot], ⟨only, _⟩ =>
      have ends : leading = false ∧ trailing = false := by
        cases leading <;> cases trailing <;> simp at terms ⊢
      obtain ⟨rfl, rfl⟩ := ends
      have here : isElided slot = false := isElided_eq_false (present only)
      simp [here]
  | succ left =>
    match slots, fits with
    | slot :: between :: slots, ⟨first, _, fits⟩ =>
      have last := getLast?_of_fits present fits
      have more : slots ≠ [] := by
        rintro rfl
        have := fits.length_slots
        simp at this
      have start : isElided slot = leading := by
        simp only [Bool.true_and] at first
        cases leading with
        | false => exact isElided_eq_false (present first)
        | true => exact first ▸ rfl
      rw [List.getLast?_cons_of_ne_nil (List.cons_ne_nil _ _), List.getLast?_cons_of_ne_nil more, last]
      simp [start]

end Slots

/-! ### Both walks -/

/-- Walking a tree by a term transfers some entries, no more than the counters of the term have room for, and
gives the tree back. -/
def Bridged (n : Nat) (scope : Scope) (label : Option String) (t : Term) (tree : Tree) : Prop :=
  ∃ entries, Within (occurrences · t) entries ∧ ∀ {counters : Counters} (depth : Nat), counters.Covers t →
    Transfer counters depth (collect (ofRule n) scope counters t tree)
      (rebuild (toRule depth) scope counters label t) entries tree

/-- A tree by the body of a rule has a branch of its own, without the fields that do not occur in the body,
and comes back from it. -/
def BridgedRule (n : Nat) (scope : Scope) (body : Term) (name : String) (tree : Tree) : Prop :=
  ∃ child, ofRule n scope body tree = .ok child ∧
    (∀ field, occurrences field body = 0 → child.get? field = none) ∧
    ∀ depth, child.depth ≤ depth → toRule depth scope body name child = .ok tree

section Bridged

variable {n : Nat} {scope : Scope} {label : Option String} {t : Term} {tree : Tree}

/-- Fields that do not occur are not in an empty branch. -/
theorem get?_emptyBranch {field : String} (never : occurrences field t = 0) :
    (ofTerm t).emptyBranch.get? field = none := by
  rw [← Option.not_isSome_iff_eq_none, Table.get?, Table.lookup_isSome]
  intro present
  have named : field ∈ (ofTerm t).names := by
    unfold emptyBranch listFields at present
    rw [List.map_map, List.map_map] at present
    exact (List.filter_sublist.map _).subset present
  have := (ofTerm_spec t).2.2 field named
  omega

/-- The entries of a term fill a branch, and are taken out of it until nothing is left. -/
theorem Bridged.whole (h : Bridged n scope label t tree) :
    ∃ child, collect (ofRule n) scope (ofTerm t) t tree (ofTerm t).emptyBranch = .ok child ∧
      (∀ field, occurrences field t = 0 → child.get? field = none) ∧
      ∀ depth, child.depth ≤ depth + 1 → ∃ b,
        rebuild (toRule depth) scope (ofTerm t) label t child = .ok (tree, b) ∧ b.ensureConsumed = .ok () := by
  obtain ⟨entries, room, transfer⟩ := h
  have empty := Holds.empty (ofTerm_spec t).1
  obtain ⟨child, collected, holds, frame⟩ := (transfer 0 (covers_ofTerm t)).write empty room.fitting
  refine ⟨child, collected, fun field never => ?_, fun depth deep => ?_⟩
  · have none : entries.values field = [] := by
      have few : (entries.values field).length ≤ occurrences field t :=
        room field (Nat.le_trans (Nat.le_of_eq never) (Nat.zero_le 1))
      exact List.eq_nil_of_length_eq_zero (by omega)
    rw [frame field none, get?_emptyBranch never]
  · have small : ∀ entry ∈ entries, entry.2.depth ≤ depth := by
      intro entry member
      have inside : (entry.1, entry.2) ∈ [] ++ entries := member
      have := holds.depth_lt inside
      omega
    rw [List.nil_append, ← List.append_nil entries] at holds
    obtain ⟨b, rebuilt, left⟩ := (transfer depth (covers_ofTerm t)).read small holds
    exact ⟨b, rebuilt, left.ensureConsumed⟩

/-- A leaf in a field. -/
theorem bridged_leaf (field : String) {s : Slice} (room : 0 < occurrences field t)
    (write : ∀ counters b, collect (ofRule n) scope counters t (.leaf s) b
      = addLeaf counters field t b (.leaf s))
    (read : ∀ depth counters b, rebuild (toRule depth) scope counters label t b
      = pullLeaf counters field b) : Bridged n scope label t (.leaf s) := by
  refine ⟨[(field, .leaf s)], .single room _, fun {counters} depth _ => ?_⟩
  exact (Transfer.leaf counters depth field t s).congr (write counters) (read depth counters)

theorem bridged_rule {name : String} {body : Term} {inner : Scope}
    (found : scope.find? name = some (body, inner)) (h : BridgedRule n inner body name tree) :
    Bridged n scope label (.rule name) tree := by
  obtain ⟨child, made, -, remade⟩ := h
  refine ⟨[(baseName name, .branch child)], .single (by simp [occurrences]) _, fun {counters} depth _ => ?_⟩
  have transfer := Transfer.branch counters depth (baseName name) child
  refine ⟨fun {before b} holds fits => ?_, fun small {after b} holds => ?_⟩
  · obtain ⟨b', added, holds⟩ := transfer.write holds fits
    refine ⟨b', ?_, holds⟩
    rw [collect, found]
    show (ofRule n inner body tree >>= _) = _
    rw [made]
    exact added
  · obtain ⟨b', pulled, holds⟩ := transfer.read small holds
    have deep : child.depth ≤ depth := small _ List.mem_cons_self
    refine ⟨b', ?_, holds⟩
    rw [rebuild, found]
    show (pullBranch counters (baseName name) b >>= _) = _
    rw [pulled]
    show (toRule depth inner body name child >>= _) = _
    rw [remade depth deep]
    rfl

theorem bridged_capture {name : String} (h : Bridged n scope (some name) t tree) :
    Bridged n scope label (.capture name t) tree := by
  obtain ⟨child, made, -, remade⟩ := h.whole
  refine ⟨[(name, .branch child)], .single (by simp [occurrences]) _, fun {counters} depth _ => ?_⟩
  have transfer := Transfer.branch counters depth name child
  refine ⟨fun {before b} holds fits => ?_, fun small {after b} holds => ?_⟩
  · obtain ⟨b', added, holds⟩ := transfer.write holds fits
    refine ⟨b', ?_, holds⟩
    rw [collect]
    show (collect (ofRule n) scope (ofTerm t) t tree (ofTerm t).emptyBranch >>= _) = _
    rw [made]
    exact added
  · obtain ⟨b', pulled, holds⟩ := transfer.read small holds
    have deep : child.depth ≤ depth := small _ List.mem_cons_self
    obtain ⟨left, rebuilt, consumed⟩ := remade depth (Nat.le_succ_of_le deep)
    refine ⟨b', ?_, holds⟩
    rw [rebuild]
    show (pullBranch counters name b >>= _) = _
    rw [pulled]
    show (rebuild (toRule depth) scope (ofTerm t) (some name) t child >>= _) = _
    rw [rebuilt]
    show (lift left.ensureConsumed >>= _) = _
    rw [consumed]
    rfl

/-- Trees one after the other, all by one term. -/
theorem bridged_times {children : List Tree} (each : ∀ child ∈ children, Bridged n scope none t child) :
    ∃ parts : List Entries, parts.length = children.length ∧
      (∀ part ∈ parts, Within (occurrences · t) part) ∧
      ∀ {counters : Counters} (depth : Nat), counters.Covers t → Transfer counters depth
        (fun b => children.foldlM (fun b child => collect (ofRule n) scope counters t child b) b)
        (rebuildTimes (rebuild (toRule depth) scope counters none t) children.length)
        parts.flatten children := by
  induction children with
  | nil => exact ⟨[], rfl, nofun, fun _ _ => .done []⟩
  | cons child children ih =>
    obtain ⟨entries, room, here⟩ := each child List.mem_cons_self
    obtain ⟨parts, number, rooms, others⟩ := ih fun child member => each child (List.mem_cons_of_mem _ member)
    refine ⟨entries :: parts, congrArg (· + 1) number, ?_, fun {counters} depth covers => ?_⟩
    · intro part member
      rcases List.mem_cons.mp member with rfl | member
      · exact room
      · exact rooms part member
    · let more (child : Tree) (b : Branch) : Except Error (List Tree × Branch) :=
        rebuildTimes (rebuild (toRule depth) scope counters none t) children.length b
          >>= fun found => .ok (child :: found.1, found.2)
      have rest : Transfer counters depth _ (more child) parts.flatten (child :: children) :=
        (others depth covers).map (child :: ·)
      exact ((here depth covers).bind rest).congr (fun b => by rw [List.foldlM_cons]) fun b => rfl

/-- The last slot of a list is rebuilt. -/
theorem rebuildSlots_zero (element separator : Branch → Except Error (Tree × Branch))
    (leading trailing first : Bool) (b : Branch) :
    rebuildSlots element separator leading trailing 0 first b
      = (if (first && leading) || trailing then .ok (.elided, b) else element b)
        >>= fun (slot, b) => .ok ([slot], b) := by
  rw [rebuildSlots]
  simp only [BEq.rfl, Bool.true_and]
  split <;> rfl

/-- A slot, the separator after it and the other slots are rebuilt. -/
theorem rebuildSlots_succ (element separator : Branch → Except Error (Tree × Branch))
    (leading trailing : Bool) (left : Nat) (first : Bool) (b : Branch) :
    rebuildSlots element separator leading trailing (left + 1) first b
      = (if first && leading then .ok (.elided, b) else element b)
        >>= fun (slot, b) => separator b
        >>= fun (between, b) => rebuildSlots element separator leading trailing left false b
        >>= fun (slots, b) => .ok (slot :: between :: slots, b) := by
  have more : (left + 1 == 0) = false := rfl
  rw [rebuildSlots]
  simp only [more, Bool.false_and, Bool.or_false]
  split <;> rfl

/-- A slot of a list: nothing, or else a tree by the term of the slot. -/
theorem bridged_slot {P : Tree → Prop} (inside : ∀ {slot}, P slot → slot ≠ .elided ∧ Bridged n scope none t slot)
    {left : Bool} {slot : Tree} (h : (if left then (· = .elided) else P) slot) :
    ∃ part, Within (occurrences · t) part ∧ ∀ {counters : Counters} (depth : Nat), counters.Covers t →
      ∃ write, (∀ other slots b, Term.walkSlots (collect (ofRule n) scope counters t) other (slot :: slots) b
          = write b >>= Term.walkSlots other (collect (ofRule n) scope counters t) slots) ∧
        Transfer counters depth write
          (fun b => if left then .ok (.elided, b) else rebuild (toRule depth) scope counters none t b)
          part slot := by
  cases left with
  | true =>
    obtain rfl := h
    exact ⟨[], .nil _, fun depth _ => ⟨.ok, fun _ _ _ => rfl, .done Tree.elided⟩⟩
  | false =>
    obtain ⟨present, part, room, transfer⟩ := inside h
    exact ⟨part, room, fun depth covers =>
      ⟨_, fun _ _ _ => Tree.walkSlots_present _ _ _ _ present, transfer depth covers⟩⟩

/-- The slots of a list. -/
theorem bridged_slots {E S : Tree → Prop} {element separator : Term}
    (elements : ∀ {slot}, E slot → slot ≠ .elided ∧ Bridged n scope none element slot)
    (separators : ∀ {slot}, S slot → slot ≠ .elided ∧ Bridged n scope none separator slot)
    {leading trailing : Bool} {left : Nat} {first : Bool} {slots : List Tree}
    (fits : Term.Fits (slotPattern E S (· = .elided) leading trailing left first) slots) :
    ∃ parts : List Entries,
      (∀ part ∈ parts, Within (fun field => occurrences field element + occurrences field separator) part) ∧
      ∀ {counters : Counters} (depth : Nat), counters.Covers element → counters.Covers separator →
        Transfer counters depth
          (Term.walkSlots (collect (ofRule n) scope counters element)
            (collect (ofRule n) scope counters separator) slots)
          (rebuildSlots (rebuild (toRule depth) scope counters none element)
            (rebuild (toRule depth) scope counters none separator) leading trailing left first)
          parts.flatten slots := by
  have wider {part : Entries} (h : Within (occurrences · element) part) :
      Within (fun field => occurrences field element + occurrences field separator) part :=
    h.mono fun _ => Nat.le_add_right _ _
  induction left generalizing first slots with
  | zero =>
    match slots, fits with
    | [slot], ⟨here, _⟩ =>
      obtain ⟨part, room, transfer⟩ := bridged_slot elements here
      refine ⟨[part], fun part' member => List.mem_singleton.mp member ▸ wider room,
        fun {counters} depth covers _ => ?_⟩
      obtain ⟨write, walk, single⟩ := transfer depth covers
      let stop (slot : Tree) (b : Branch) : Except Error (List Tree × Branch) := .ok ([slot], b)
      have rest : Transfer counters depth
          (Term.walkSlots (collect (ofRule n) scope counters separator)
            (collect (ofRule n) scope counters element) []) (stop slot) [].flatten [slot] := .done [slot]
      have both := single.bind rest
      exact both.congr (fun b => walk _ _ b) fun b => rebuildSlots_zero _ _ _ _ _ b
  | succ left ih =>
    match slots, fits with
    | slot :: between :: slots, ⟨here, separated, fits⟩ =>
      obtain ⟨part, room, transfer⟩ := bridged_slot elements here
      obtain ⟨present, part', room', transfer'⟩ := separators separated
      obtain ⟨parts, rooms, others⟩ := ih fits
      refine ⟨part :: part' :: parts, ?_, fun {counters} depth covers covers' => ?_⟩
      · intro other member
        rcases List.mem_cons.mp member with rfl | member
        · exact wider room
        · rcases List.mem_cons.mp member with rfl | member
          · exact room'.mono fun _ => Nat.le_add_left _ _
          · exact rooms other member
      · obtain ⟨write, walk, single⟩ := transfer depth covers
        let remaining := rebuildSlots (rebuild (toRule depth) scope counters none element)
          (rebuild (toRule depth) scope counters none separator) leading trailing left false
        let more (slot between : Tree) (b : Branch) : Except Error (List Tree × Branch) :=
          remaining b >>= fun (slots, b) => .ok (slot :: between :: slots, b)
        have rest : Transfer counters depth _ (more slot between) parts.flatten (slot :: between :: slots) :=
          (others depth covers covers').map fun slots => slot :: between :: slots
        let pair (slot : Tree) (b : Branch) : Except Error (List Tree × Branch) :=
          rebuild (toRule depth) scope counters none separator b >>= fun (between, b) => more slot between b
        have second : Transfer counters depth _ (pair slot) _ _ := (transfer' depth covers').bind rest
        have both := single.bind second
        refine both.congr (fun b => ?_) fun b => rebuildSlots_succ _ _ _ _ _ _ b
        rw [walk]
        congr 1
        funext b
        exact Tree.walkSlots_present _ _ _ _ present

/-- Items one after the other. -/
def BridgedItems (n : Nat) (scope : Scope) (ts : List Term) (trees : List Tree) : Prop :=
  ∃ entries, Within (occurrencesAll · ts) entries ∧ ∀ {counters : Counters} (depth : Nat),
    (∀ t ∈ ts, counters.Covers t) →
      Transfer counters depth (collectItems (ofRule n) scope counters ts trees)
        (rebuildItems (toRule depth) scope counters ts) entries trees

theorem BridgedItems.cons {ts : List Term} {trees : List Tree} (h : Bridged n scope none t tree)
    (others : BridgedItems n scope ts trees) : BridgedItems n scope (t :: ts) (tree :: trees) := by
  obtain ⟨entries, room, here⟩ := h
  obtain ⟨entries', room', rest⟩ := others
  refine ⟨entries ++ entries', room.append room', fun {counters} depth covers => ?_⟩
  have first := here depth (covers t List.mem_cons_self)
  have second := rest depth fun t member => covers t (List.mem_cons_of_mem _ member)
  let more (tree : Tree) (b : Branch) : Except Error (List Tree × Branch) :=
    rebuildItems (toRule depth) scope counters ts b >>= fun (trees, b) => .ok (tree :: trees, b)
  have rest : Transfer counters depth _ (more tree) entries' (tree :: trees) := second.map (tree :: ·)
  exact (first.bind rest).congr (fun b => by rw [collectItems]) fun b => by rw [rebuildItems]

theorem occurrences_le_all {field : String} : ∀ {ts : List Term}, t ∈ ts →
    occurrences field t ≤ occurrencesAll field ts
  | _ :: _, .head _ => Nat.le_add_right _ _
  | _ :: _, .tail _ member => Nat.le_trans (occurrences_le_all member) (Nat.le_add_left _ _)

theorem occurrences_le_most {field : String} : ∀ {ts : List Term}, t ∈ ts →
    occurrences field t ≤ occurrencesMost field ts
  | _ :: _, .head _ => Nat.le_max_left _ _
  | _ :: _, .tail _ member => Nat.le_trans (occurrences_le_most member) (Nat.le_max_right _ _)

theorem bridged_seq {ts : List Term} {trees : List Tree} (length : trees.length = ts.length)
    (items : BridgedItems n scope ts trees) :
    Bridged n scope label (.seq ts) (.node (label.getD Tree.seqTag) none trees) := by
  obtain ⟨entries, room, transfer⟩ := items
  refine ⟨entries, room, fun {counters} depth covers => ?_⟩
  have inner := transfer depth fun t member => covers.mono fun _ => occurrences_le_all member
  refine (inner.map fun trees => Tree.node (label.getD Tree.seqTag) none trees).congr (fun b => ?_) fun b => ?_
  · rw [collect]
    show (if _ then _ else _) = _
    rw [if_pos length]
  · rw [rebuild]

theorem collectChosen_eq (counters : Counters) (whole : Term) (node : Tree) (chosen : Nat) (b : Branch) :
    ∀ {ts : List Term} {index : Nat}, ts[index]? = some t →
      collectChosen (ofRule n) scope counters whole node chosen ts index tree b
        = addMark choiceField (.choice chosen) b >>= collect (ofRule n) scope counters t tree
  | _ :: _, 0, found => by
    obtain rfl := Option.some.inj found
    rw [collectChosen]
  | _ :: ts, index + 1, found => by
    rw [collectChosen]
    exact collectChosen_eq counters whole node chosen b found

theorem rebuildChosen_eq (depth : Nat) (counters : Counters) (chosen count : Nat) (b : Branch) :
    ∀ {ts : List Term} {index : Nat}, ts[index]? = some t →
      rebuildChosen (toRule depth) scope counters chosen count ts index b
        = rebuild (toRule depth) scope counters none t b
  | _ :: _, 0, found => by
    obtain rfl := Option.some.inj found
    rw [rebuildChosen]
  | _ :: ts, index + 1, found => by
    rw [rebuildChosen]
    exact rebuildChosen_eq depth counters chosen count b found

theorem bridged_choice {ts : List Term} {index : Nat} (found : ts[index]? = some t)
    (h : Bridged n scope none t tree) :
    Bridged n scope label (.choice ts)
      (.node (label.getD Tree.choiceTag) (some (.choice index)) [tree]) := by
  obtain ⟨entries, room, transfer⟩ := h
  have member : t ∈ ts := List.mem_of_getElem? found
  have marked : Within (fun field => if field = choiceField then 2 else 0)
      [(choiceField, .mark (.choice index))] := .single (by simp) _
  refine ⟨_, marked.append (room.mono fun _ => occurrences_le_most member), fun {counters} depth covers => ?_⟩
  have several : counters.isSingle choiceField = false := covers choiceField (by simp [occurrences])
  have inner := transfer depth (covers.mono fun field =>
    Nat.le_trans (occurrences_le_most member) (Nat.le_add_left _ _))
  let rest (taken : Nat) (b : Branch) : Except Error (Tree × Branch) :=
    rebuildChosen (toRule depth) scope counters taken ts.length ts taken b
      >>= fun (child, b) => .ok (.node (label.getD Tree.choiceTag) (some (.choice taken)) [child], b)
  have second : Transfer counters depth (collect (ofRule n) scope counters t tree) (rest index) entries
      (.node (label.getD Tree.choiceTag) (some (.choice index)) [tree]) := by
    refine (inner.map fun child => Tree.node (label.getD Tree.choiceTag) (some (.choice index)) [child]).congr
      (fun b => rfl) fun b => ?_
    rw [← rebuildChosen_eq depth counters index ts.length b found]
  refine ((Transfer.choice depth several index).bind second).congr (fun b => ?_) fun b => ?_
  · rw [collect]
    show collectChosen (ofRule n) scope counters _ _ index ts index tree b = _
    rw [collectChosen_eq counters _ _ index b found]
  · rw [rebuild]

theorem bridged_quant {min max : Nat} {trees : List Tree} (least : min ≤ trees.length)
    (most : max ≠ 0 → trees.length ≤ max) (each : ∀ tree ∈ trees, Bridged n scope none t tree) :
    Bridged n scope label (.quant t min max) (.node (label.getD Tree.quantTag) none trees) := by
  obtain ⟨parts, number, rooms, transfer⟩ := bridged_times each
  have marked : Within (fun field => if field = countField then 2 else 0)
      [(countField, .mark (.count trees.length))] := .single (by simp) _
  have repeated : Within (fun field => (if max = 0 then 2 else max) * occurrences field t) parts.flatten := by
    by_cases unbounded : max = 0
    · rw [if_pos unbounded]
      exact .flatten rooms Nat.two_pos (.inr (Nat.le_refl 2))
    · rw [if_neg unbounded]
      exact .flatten rooms (Nat.pos_of_ne_zero unbounded) (.inl (number ▸ most unbounded))
  refine ⟨_, marked.append repeated, fun {counters} depth covers => ?_⟩
  have several : counters.isSingle countField = false := covers countField (by simp [occurrences])
  have inner := transfer depth (covers.mono fun field => by
    rw [occurrences]
    refine Nat.le_trans (Nat.le_mul_of_pos_left _ ?_) (Nat.le_add_left _ _)
    split <;> omega)
  let rest (count : Nat) (b : Branch) : Except Error (Tree × Branch) :=
    rebuildTimes (rebuild (toRule depth) scope counters none t) count b
      >>= fun (children, b) => .ok (.node (label.getD Tree.quantTag) none children, b)
  have second : Transfer counters depth _ (rest trees.length) parts.flatten
      (.node (label.getD Tree.quantTag) none trees) :=
    inner.map fun trees => Tree.node (label.getD Tree.quantTag) none trees
  refine ((Transfer.count depth several least most).bind second).congr (fun b => ?_) fun b => ?_
  · rw [collect]
    rfl
  · rw [rebuild]

theorem bridged_list {E S : Tree → Prop} {element separator : Term} {style : ListStyle}
    (elements : ∀ {slot}, E slot → slot ≠ .elided ∧ Bridged n scope none element slot)
    (separators : ∀ {slot}, S slot → slot ≠ .elided ∧ Bridged n scope none separator slot)
    {leading trailing : Bool} {left : Nat} {slots : List Tree}
    (terms : leading.toNat + trailing.toNat ≤ left)
    (fits : Term.Fits (slotPattern E S (· = .elided) leading trailing left true) slots) :
    Bridged n scope label (.list element separator style)
      (.ofSlots (label.getD Tree.listTag) style.assoc slots) := by
  obtain ⟨parts, rooms, transfer⟩ := bridged_slots elements separators fits
  have marked : Within (fun field => if field = listField then 2 else 0)
      [(listField, .mark (.list (left + 1) leading trailing))] := .single (by simp) _
  have repeated := Within.flatten rooms Nat.two_pos (.inr (Nat.le_refl 2))
  have room : Within (occurrences · (.list element separator style))
      ([(listField, .mark (.list (left + 1) leading trailing))] ++ parts.flatten) :=
    (marked.append repeated).mono fun field => by
      rw [occurrences, Nat.mul_add, Nat.add_assoc]
  refine ⟨_, room, fun {counters} depth covers => ?_⟩
  have several : counters.isSingle listField = false := by
    apply covers listField
    rw [occurrences, if_pos rfl]
    omega
  have inner := transfer depth
    (covers.mono fun field => by rw [occurrences]; omega)
    (covers.mono fun field => by rw [occurrences]; omega)
  let rest (shape : Nat × Bool × Bool) (b : Branch) : Except Error (Tree × Branch) :=
    rebuildSlots (rebuild (toRule depth) scope counters none element)
        (rebuild (toRule depth) scope counters none separator) shape.2.1 shape.2.2 (shape.1 - 1) true b
      >>= fun (slots, b) => .ok (.ofSlots (label.getD Tree.listTag) style.assoc slots, b)
  have second : Transfer counters depth _ (rest (left + 1, leading, trailing)) parts.flatten
      (.ofSlots (label.getD Tree.listTag) style.assoc slots) :=
    inner.map fun slots => Tree.ofSlots (label.getD Tree.listTag) style.assoc slots
  refine ((Transfer.list depth several terms).bind second).congr (fun b => ?_) fun b => ?_
  · have shape := listMark_of_fits (fun h => (elements h).1) terms fits
    rw [collect, Tree.listSlots_ofSlots _ _ _ fits.length_slots, ← shape]
    rfl
  · rw [rebuild]

end Bridged

/-- Whatever rules are entered, their trees go over and back. -/
def RulesBridged (n : Nat) : Prop :=
  ∀ {scope body name tree}, Term.ShapedRule n scope body name tree →
    tree ≠ .elided ∧ BridgedRule n scope body name tree

mutual
/-- A tree that conforms to a term goes over and back. -/
theorem bridged_of_shaped {n : Nat} (rules : RulesBridged n) :
    ∀ (t : Term) {scope : Scope} {label : Option String} {tree : Tree},
      Term.Shaped (Term.ShapedRule n) scope label t tree → Bridged n scope label t tree
  | .literal _, _, _, _, ⟨_, rfl⟩ =>
    bridged_leaf "" (by simp [occurrences]) (fun _ _ => by rw [collect]) fun _ _ _ => by rw [rebuild]
  | .regex _, _, _, _, ⟨_, rfl⟩ =>
    bridged_leaf "" (by simp [occurrences]) (fun _ _ => by rw [collect]) fun _ _ _ => by rw [rebuild]
  | .backref name _, _, _, _, ⟨_, rfl⟩ =>
    bridged_leaf name (by simp [occurrences]) (fun _ _ => by rw [collect]) fun _ _ _ => by rw [rebuild]
  | .rule _, _, _, _, ⟨_, _, found, inside⟩ => bridged_rule found (rules inside).2
  | .capture _ t, _, _, _, h => by
    rw [Term.Shaped] at h
    exact bridged_capture (bridged_of_shaped rules t h)
  | .cut t, _, _, _, h => by
    rw [Term.Shaped] at h
    obtain ⟨entries, room, transfer⟩ := bridged_of_shaped rules t h
    refine ⟨entries, room, fun depth covers => ?_⟩
    exact (transfer depth covers).congr (fun b => by rw [collect]) fun b => by rw [rebuild]
  | .withRules t g, _, _, _, h => by
    rw [Term.Shaped] at h
    obtain ⟨entries, room, transfer⟩ := bridged_of_shaped rules t h
    refine ⟨entries, room, fun depth covers => ?_⟩
    exact (transfer depth covers).congr (fun b => by rw [collect]) fun b => by rw [rebuild]
  | .seq ts, _, _, _, ⟨_, rfl, items⟩ =>
    bridged_seq items.length_eq (bridgedItems_of_shaped rules ts items)
  | .choice ts, _, _, _, ⟨index, _, rfl, chosen⟩ => by
    obtain ⟨t, found, h⟩ := bridgedChosen_of_shaped rules ts chosen
    exact bridged_choice found h
  | .quant t _ _, _, _, _, ⟨_, rfl, least, most, each⟩ =>
    bridged_quant least most fun child member => bridged_of_shaped rules t (each child member)
  | .list element separator _, _, _, _, ⟨_, _, _, _, rfl, terms, fits⟩ => by
    refine bridged_list (fun h => ⟨?_, bridged_of_shaped rules element h⟩)
      (fun h => ⟨?_, bridged_of_shaped rules separator h⟩) terms fits
    · exact h.ne_elided fun h => (rules h).1
    · exact h.ne_elided fun h => (rules h).1
  | .stack _, _, _, _, h => h.elim

theorem bridgedItems_of_shaped {n : Nat} (rules : RulesBridged n) :
    ∀ (ts : List Term) {scope : Scope} {trees : List Tree},
      Term.ShapedItems (Term.ShapedRule n) scope ts trees → BridgedItems n scope ts trees
  | [], _, [], _ => ⟨[], .nil _, fun _ _ => (Transfer.done []).congr (fun _ => rfl) fun _ => by rw [rebuildItems]⟩
  | t :: ts, _, _ :: _, ⟨here, others⟩ =>
    BridgedItems.cons (bridged_of_shaped rules t here) (bridgedItems_of_shaped rules ts others)

theorem bridgedChosen_of_shaped {n : Nat} (rules : RulesBridged n) :
    ∀ (ts : List Term) {scope : Scope} {index : Nat} {child : Tree},
      Term.ShapedChosen (Term.ShapedRule n) scope ts index child →
        ∃ t, ts[index]? = some t ∧ Bridged n scope none t child
  | t :: _, _, 0, _, h => ⟨t, rfl, bridged_of_shaped rules t h⟩
  | _ :: ts, _, _ + 1, _, h => bridgedChosen_of_shaped rules ts h
end

/-- A tree that conforms to the body of a rule goes over and back. -/
theorem bridgedRule_of_shaped (n : Nat) : RulesBridged n := by
  induction n with
  | zero => exact fun h => h.elim
  | succ n ih =>
    intro scope body name tree h
    refine ⟨h.ne_elided, ?_⟩
    obtain ⟨child, made, absent, remade⟩ := (bridged_of_shaped ih body h).whole
    refine ⟨child, made, absent, fun depth deep => ?_⟩
    cases depth with
    | zero =>
      obtain ⟨fields⟩ := child
      exact absurd deep (Nat.not_succ_le_zero _)
    | succ depth =>
      obtain ⟨left, rebuilt, consumed⟩ := remade depth deep
      rw [toRule, rebuilt]
      show (lift left.ensureConsumed >>= _) = _
      rw [consumed]
      rfl

end Generic
end GrammarKit
