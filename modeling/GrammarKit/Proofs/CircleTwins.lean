/-
Module: GrammarKit.Proofs.CircleTwins
Purpose: Circles of rules do not depend on cutpoints.  Where two programs have slots of the same names in the same
  order, and the bodies of slots of one number differ by cutpoints only, these may match without input on the same
  condition and start with the same slots, so the search for circles takes the same ways in both.
Main exports: Program.HeadTwins, Program.SideBySide, Program.SideBySide.cycleViolations_eq
-/
import Mathlib.Data.List.Sort
import GrammarKit.Proofs.Nullability
import GrammarKit.Proofs.ReportedCircles

namespace GrammarKit

theorem exists_of_forall₂ {α β : Type} {R : α → β → Prop} {as : List α} {bs : List β} (all : List.Forall₂ R as bs)
    {a : α} (member : a ∈ as) : ∃ b ∈ bs, R a b := by
  induction all with
  | nil => cases member
  | cons here _ ih =>
    rcases List.mem_cons.mp member with rfl | later
    · exact ⟨_, List.mem_cons_self, here⟩
    · obtain ⟨b, further, both⟩ := ih later
      exact ⟨b, .tail _ further, both⟩

/-! ### Operators of one kind -/

/-- Operators of one kind, which may match without input on the same condition on the parsers they refer to. -/
inductive Operator.Akin : Operator → Operator → Prop
  | terminal {t t'} : t'.nullable = t.nullable → Akin (.terminal t) (.terminal t')
  | seq {items items'} : Akin (.seq items) (.seq items')
  | choice {alternatives alternatives'} : Akin (.choice alternatives) (.choice alternatives')
  | list {element separator style cut element' separator' cut'} :
      Akin (.list element separator style cut) (.list element' separator' style cut')
  | quant {term term' min max} : Akin (.quant term min max) (.quant term' min max)
  | backref {name default default'} : Akin (.backref name default) (.backref name default')

namespace Operator.Akin

variable {operator operator' : Operator}

theorem symm (akin : operator.Akin operator') : operator'.Akin operator := by
  cases akin with
  | terminal same => exact .terminal same.symm
  | _ => constructor

theorem ne_call (akin : operator.Akin operator') (target : ParserId) : operator' ≠ .call target := by
  rintro rfl
  cases akin

/-- Operators of one kind may match without input if parts of the one that may belong to parts of the other that may. -/
theorem nullableFrom (akin : operator.Akin operator') {marks marks' : ParserId → Bool}
    (parts : List.Forall₂ (fun id id' => marks id = true → marks' id' = true) operator.parts operator'.parts)
    (nullable : operator.nullableFrom marks = true) : operator'.nullableFrom marks' = true := by
  cases akin with
  | terminal same => exact same.trans nullable
  | seq =>
    rename_i items items'
    replace parts : List.Forall₂ (fun item item' => marks item.parser = true → marks' item'.parser = true) items
        items' :=
      List.forall₂_map_left_iff.mp (List.forall₂_map_right_iff.mp parts)
    rw [Operator.nullableFrom, List.all_eq_true] at nullable ⊢
    induction parts with
    | nil => exact List.forall_mem_nil _
    | cons here _ ih =>
      obtain ⟨first, others⟩ := List.forall_mem_cons.mp nullable
      exact List.forall_mem_cons.mpr ⟨here first, ih others⟩
  | choice =>
    rename_i alternatives alternatives'
    replace parts : List.Forall₂ (fun id id' => marks id = true → marks' id' = true) alternatives alternatives' := parts
    rw [Operator.nullableFrom, List.any_eq_true] at nullable ⊢
    induction parts with
    | nil =>
      obtain ⟨chosen, member, -⟩ := nullable
      cases member
    | cons here _ ih =>
      obtain ⟨chosen, member, marked⟩ := nullable
      rcases List.mem_cons.mp member with rfl | later
      · exact ⟨_, List.mem_cons_self, here marked⟩
      · obtain ⟨chosen', member', marked'⟩ := ih ⟨chosen, later, marked⟩
        exact ⟨chosen', .tail _ member', marked'⟩
  | list =>
    cases parts with
    | cons element _ => exact element nullable
  | quant =>
    cases parts with
    | cons term _ =>
      rcases (Bool.or_eq_true _ _).mp nullable with optional | marked
      · exact (Bool.or_eq_true _ _).mpr (.inl optional)
      · exact (Bool.or_eq_true _ _).mpr (.inr (term marked))
  | backref => rfl

end Operator.Akin

/-- Items that may be reached before input is taken belong together if all items do. -/
theorem Program.reachableItems_forall₂ {R : ParserId → ParserId → Prop} {nullable nullable' : Array Bool}
    (marked : ∀ {id id'}, R id id' → isMarked nullable id = isMarked nullable' id') {items items' : List Item}
    (parts : List.Forall₂ (fun item item' => R item.parser item'.parser) items items') :
    List.Forall₂ R (reachableItems nullable items) (reachableItems nullable' items') := by
  induction parts with
  | nil => exact .nil
  | cons here _ ih =>
    rw [reachableItems, reachableItems, ← marked here]
    split
    · exact .cons here ih
    · exact .cons here .nil

/-- Operators of one kind may run parts that belong together before any input is taken. -/
theorem Operator.Akin.startHeads {operator operator' : Operator} (akin : operator.Akin operator')
    {R : ParserId → ParserId → Prop} {nullable nullable' : Array Bool}
    (marked : ∀ {id id'}, R id id' → Program.isMarked nullable id = Program.isMarked nullable' id')
    (parts : List.Forall₂ R operator.parts operator'.parts) :
    List.Forall₂ R (operator.startHeads nullable) (operator'.startHeads nullable') := by
  cases akin with
  | seq =>
    exact Program.reachableItems_forall₂ marked (List.forall₂_map_left_iff.mp (List.forall₂_map_right_iff.mp parts))
  | list =>
    obtain ⟨element, separator⟩ : R _ _ ∧ R _ _ := by simpa [Operator.parts] using parts
    simp only [Operator.startHeads]
    split
    · exact .cons element (.cons separator .nil)
    · exact .cons element .nil
  | _ => exact parts

namespace Program

/-! ### Parsers that differ by cutpoints -/

/-- Slots with one number and one name. -/
def SlotTwins (d d' : Draft) (slot slot' : ParserId) : Prop :=
  ∃ (i : Nat) (name : String), d.slots[i]? = some (slot, name) ∧ d'.slots[i]? = some (slot', name)

/-- Parsers of two drafts that are of one kind and made of such parsers, one by one, where cutpoints do not count: calls
lead to slots with one number. -/
inductive HeadTwins (d d' : Draft) : List ParserId → List ParserId → Prop
  | nil : HeadTwins d d' [] []
  | left {id inner : ParserId} {label ids ids'} : d.parsers[id]? = some ⟨label, .cut inner⟩ →
      HeadTwins d d' (inner :: ids) ids' → HeadTwins d d' (id :: ids) ids'
  | right {id' inner' : ParserId} {label' ids ids'} : d'.parsers[id']? = some ⟨label', .cut inner'⟩ →
      HeadTwins d d' ids (inner' :: ids') → HeadTwins d d' ids (id' :: ids')
  | call {id id' slot slot' : ParserId} {label label' ids ids'} : d.parsers[id]? = some ⟨label, .call slot⟩ →
      d'.parsers[id']? = some ⟨label', .call slot'⟩ → SlotTwins d d' slot slot' → HeadTwins d d' ids ids' →
      HeadTwins d d' (id :: ids) (id' :: ids')
  | akin {id id' : ParserId} {label label' operator operator' ids ids'} : d.parsers[id]? = some ⟨label, operator⟩ →
      d'.parsers[id']? = some ⟨label', operator'⟩ → operator.Akin operator' →
      HeadTwins d d' operator.parts operator'.parts → HeadTwins d d' ids ids' →
      HeadTwins d d' (id :: ids) (id' :: ids')

section Twins

variable {d d' later later' : Draft}

theorem SlotTwins.symm {slot slot' : ParserId} (twins : SlotTwins d d' slot slot') : SlotTwins d' d slot' slot := by
  obtain ⟨i, name, here, here'⟩ := twins
  exact ⟨i, name, here', here⟩

theorem Draft.Settles.getElem?_slots (settles : d.Settles later) {i : Nat} {slot : ParserId × String}
    (here : d.slots[i]? = some slot) : later.slots[i]? = some slot := by
  obtain ⟨more, same⟩ := settles.slots
  obtain ⟨inside, -⟩ := List.getElem?_eq_some_iff.mp here
  rw [same, List.getElem?_append_left inside, here]

/-- Parsers that are no promises stay. -/
theorem Draft.Settles.call (settles : d.Settles later) {id target : ParserId} {label : Option String}
    (here : d.parsers[id]? = some ⟨label, .call target⟩) : later.parsers[id]? = some ⟨label, .call target⟩ :=
  settles.parsers here fun _ pending => by cases pending

theorem Draft.Settles.cut (settles : d.Settles later) {id inner : ParserId} {label : Option String}
    (here : d.parsers[id]? = some ⟨label, .cut inner⟩) : later.parsers[id]? = some ⟨label, .cut inner⟩ :=
  settles.parsers here fun _ pending => by cases pending

theorem SlotTwins.mono (settles : d.Settles later) (settles' : d'.Settles later') {slot slot' : ParserId}
    (twins : SlotTwins d d' slot slot') : SlotTwins later later' slot slot' := by
  obtain ⟨i, name, here, here'⟩ := twins
  exact ⟨i, name, settles.getElem?_slots here, settles'.getElem?_slots here'⟩

/-- Operators of one kind do not wait for bodies. -/
theorem settled_of_akin {label : Option String} {operator operator' : Operator} (akin : operator.Akin operator') :
    Settled ⟨label, operator⟩ := by
  rintro name (rfl : operator = .pending name)
  cases akin

namespace HeadTwins

variable {ids ids' others others' : List ParserId}

theorem symm (twins : HeadTwins d d' ids ids') : HeadTwins d' d ids' ids := by
  induction twins with
  | nil => exact .nil
  | left here _ ih => exact .right here ih
  | right here _ ih => exact .left here ih
  | call here here' slots _ ih => exact .call here' here slots.symm ih
  | akin here here' akin _ _ parts ih => exact .akin here' here akin.symm parts ih

theorem mono (settles : d.Settles later) (settles' : d'.Settles later') (twins : HeadTwins d d' ids ids') :
    HeadTwins later later' ids ids' := by
  induction twins with
  | nil => exact .nil
  | left here _ ih => exact .left (settles.cut here) ih
  | right here _ ih => exact .right (settles'.cut here) ih
  | call here here' slots _ ih =>
    exact .call (settles.call here) (settles'.call here') (slots.mono settles settles') ih
  | akin here here' akin _ _ parts ih =>
    have found := settles.parsers here (settled_of_akin akin)
    have found' := settles'.parsers here' (settled_of_akin akin.symm)
    exact .akin found found' akin parts ih

theorem append (twins : HeadTwins d d' ids ids') (rest : HeadTwins d d' others others') :
    HeadTwins d d' (ids ++ others) (ids' ++ others') := by
  induction twins with
  | nil => exact rest
  | left here _ ih => exact .left here ih
  | right here _ ih => exact .right here ih
  | call here here' slots _ ih => exact .call here here' slots ih
  | akin here here' akin parts _ _ ih => exact .akin here here' akin parts ih

end HeadTwins

/-- A cutpoint around a parser. -/
def CutAround (d : Draft) (id inner : ParserId) : Prop :=
  ∃ label, d.parsers[id]? = some ⟨label, .cut inner⟩

/-- Twins that are no cutpoints: calls of slots with one number, or operators of one kind with twins as parts. -/
inductive CoreTwins (d d' : Draft) (id id' : ParserId) : Prop
  | call {slot slot' label label'} : d.parsers[id]? = some ⟨label, .call slot⟩ →
      d'.parsers[id']? = some ⟨label', .call slot'⟩ → SlotTwins d d' slot slot' → CoreTwins d d' id id'
  | akin {label label' operator operator'} : d.parsers[id]? = some ⟨label, operator⟩ →
      d'.parsers[id']? = some ⟨label', operator'⟩ → operator.Akin operator' →
      HeadTwins d d' operator.parts operator'.parts → CoreTwins d d' id id'

/-- Twins: inside of their cutpoints they are of one kind. -/
def CutTwins (d d' : Draft) (id id' : ParserId) : Prop :=
  ∃ core core', Relation.ReflTransGen (CutAround d) id core ∧ Relation.ReflTransGen (CutAround d') id' core' ∧
    CoreTwins d d' core core'

theorem CutTwins.symm {id id' : ParserId} (twins : CutTwins d d' id id') : CutTwins d' d id' id := by
  obtain ⟨core, core', cuts, cuts', twins⟩ := twins
  refine ⟨core', core, cuts', cuts, ?_⟩
  cases twins with
  | call here here' slots => exact .call here' here slots.symm
  | akin here here' akin parts => exact .akin here' here akin.symm parts.symm

theorem HeadTwins.forall₂ {ids ids' : List ParserId} (twins : HeadTwins d d' ids ids') :
    List.Forall₂ (CutTwins d d') ids ids' := by
  induction twins with
  | nil => exact .nil
  | left here _ ih =>
    cases ih with
    | cons first others =>
      obtain ⟨core, core', cuts, cuts', twins⟩ := first
      exact .cons ⟨core, core', .head ⟨_, here⟩ cuts, cuts', twins⟩ others
  | right here _ ih =>
    cases ih with
    | cons first others =>
      obtain ⟨core, core', cuts, cuts', twins⟩ := first
      exact .cons ⟨core, core', cuts, .head ⟨_, here⟩ cuts', twins⟩ others
  | call here here' slots _ ih => exact .cons ⟨_, _, .refl, .refl, .call here here' slots⟩ ih
  | akin here here' akin parts _ _ ih => exact .cons ⟨_, _, .refl, .refl, .akin here here' akin parts⟩ ih

theorem HeadTwins.single {id id' : ParserId} (twins : HeadTwins d d' [id] [id']) : CutTwins d d' id id' := by
  cases twins.forall₂ with
  | cons first _ => exact first

end Twins

/-! ### Programs side by side -/

/-- The slots with one number in two drafts call bodies that are twins. -/
def Served (d d' : Draft) (i : Nat) : Prop :=
  ∃ slot slot' name body body', d.slots[i]? = some (slot, name) ∧ d'.slots[i]? = some (slot', name) ∧
    d.parsers[slot]? = some ⟨none, .call body⟩ ∧ d'.parsers[slot']? = some ⟨none, .call body'⟩ ∧
    HeadTwins d d' [body] [body']

/-- Programs with slots of the same names in the same order, which call twins. -/
structure SideBySide (p p' : Program) : Prop where
  ordered : p.InOrder
  ordered' : p'.InOrder
  distinct : (p.slots.map (·.1)).Nodup
  distinct' : (p'.slots.map (·.1)).Nodup
  names : p'.slots.map (·.2) = p.slots.map (·.2)
  served : ∀ i < p.slots.length, Served p.draft p'.draft i

/-- A slot that is listed once has the number of its place. -/
theorem slotIndex?_of_getElem? {p : Program} (distinct : (p.slots.map (·.1)).Nodup) {i : Nat} {slot : ParserId}
    {name : String} (here : p.slots[i]? = some (slot, name)) : p.slotIndex? slot = some i := by
  obtain ⟨inside, same⟩ := List.getElem?_eq_some_iff.mp here
  refine List.findIdx?_eq_some_iff_getElem.mpr ⟨inside, by simp [same], fun j earlier found => ?_⟩
  have last : i < (p.slots.map (·.1)).length := by rwa [List.length_map]
  have first : j < (p.slots.map (·.1)).length := Nat.lt_trans earlier last
  have twice : (p.slots.map (·.1))[j] = (p.slots.map (·.1))[i] := by
    rw [List.getElem_map, List.getElem_map, same]
    exact eq_of_beq found
  exact Nat.ne_of_lt earlier (distinct.getElem_inj_iff.mp twice)

theorem pairwise_insertNumber {n : Nat} {ns : List Nat} (ordered : ns.Pairwise (· < ·)) :
    (insertNumber n ns).Pairwise (· < ·) := by
  induction ns with
  | nil => exact List.pairwise_singleton _ _
  | cons m ns ih =>
    obtain ⟨above, rest⟩ := List.pairwise_cons.mp ordered
    rw [insertNumber]
    split
    · next less =>
      refine List.pairwise_cons.mpr ⟨fun k member => ?_, ordered⟩
      rcases List.mem_cons.mp member with rfl | later
      · exact less
      · exact Nat.lt_trans less (above k later)
    · split
      · exact ordered
      · refine List.pairwise_cons.mpr ⟨fun k member => ?_, ih rest⟩
        rcases mem_insertNumber.mp member with rfl | later
        · omega
        · exact above k later

/-- The slots that a slot leads to stand in order. -/
theorem pairwise_startEdges (p : Program) {numbers : List Nat} (member : numbers ∈ p.startEdges) :
    numbers.Pairwise (· < ·) := by
  obtain ⟨⟨slot, name⟩, -, rfl⟩ := List.mem_map.mp member
  show (List.foldr insertNumber [] (p.slotEdges p.nullability slot)).Pairwise (· < ·)
  induction p.slotEdges p.nullability slot with
  | nil => exact .nil
  | cons _ _ ih => exact pairwise_insertNumber ih

namespace SideBySide

variable {p p' : Program}

theorem symm (h : SideBySide p p') : SideBySide p' p where
  ordered := h.ordered'
  ordered' := h.ordered
  distinct := h.distinct'
  distinct' := h.distinct
  names := h.names.symm
  served := fun i inside => by
    have same := congrArg List.length h.names
    rw [List.length_map, List.length_map] at same
    obtain ⟨slot, slot', name, body, body', listed, listed', called, called', twins⟩ := h.served i (same ▸ inside)
    exact ⟨slot', slot, name, body', body, listed', listed, called', called, twins.symm⟩

/-- Slots with one number call twins. -/
theorem bodies (h : SideBySide p p') {slot slot' : ParserId} (twins : SlotTwins p.draft p'.draft slot slot') :
    ∃ body body', p.parsers[slot]? = some ⟨none, .call body⟩ ∧ p'.parsers[slot']? = some ⟨none, .call body'⟩ ∧
      CutTwins p.draft p'.draft body body' := by
  obtain ⟨i, name, here, here'⟩ := twins
  obtain ⟨slot₁, slot₁', name₁, body, body', listed, listed', called, called', bodies⟩ :=
    h.served i (List.getElem?_eq_some_iff.mp here).1
  obtain ⟨rfl, rfl⟩ := Prod.mk.inj (Option.some.inj (listed.symm.trans here))
  obtain ⟨rfl, -⟩ := Prod.mk.inj (Option.some.inj (listed'.symm.trans here'))
  exact ⟨body, body', called, called', bodies.single⟩

theorem nullable_of_cuts {id core : ParserId} (cuts : Relation.ReflTransGen (CutAround p.draft) id core)
    (nullable : p.Nullable core) : p.Nullable id := by
  induction cuts using Relation.ReflTransGen.head_induction_on with
  | refl => exact nullable
  | head around _ ih =>
    obtain ⟨label, here⟩ := around
    exact .cut here ih

open Classical in
/-- What may match without input may do so as a twin. -/
theorem nullable (h : SideBySide p p') {id id' : ParserId} (twins : CutTwins p.draft p'.draft id id')
    (nullable : p.Nullable id) : p'.Nullable id' := by
  suffices ∀ id', CutTwins p.draft p'.draft id id' ∨ SlotTwins p.draft p'.draft id id' → p'.Nullable id' from
    this id' (.inl twins)
  refine Nullable.least (P := fun id => ∀ id', CutTwins p.draft p'.draft id id' ∨ SlotTwins p.draft p'.draft id id' →
    p'.Nullable id') (fun {id parser} here marked id' twins => ?_) nullable
  have here : p.draft.parsers[id]? = some parser := here
  rcases twins with ⟨core, core', cuts, cuts', twins⟩ | slots
  · rcases cuts.cases_head with rfl | ⟨inner, ⟨label, here'⟩, cuts⟩
    · refine nullable_of_cuts cuts' ?_
      cases twins with
      | call called called' slots =>
        obtain rfl := Option.some.inj (here.symm.trans called)
        exact .call called' (of_decide_eq_true marked _ (.inr slots))
      | akin found found' akin parts =>
        obtain rfl := Option.some.inj (here.symm.trans found)
        have sound : ∀ id, decide (p'.Nullable id) = true → p'.Nullable id := fun _ => of_decide_eq_true
        refine Nullable.of_nullableFrom found' sound (akin.nullableFrom ?_ marked)
        refine parts.forall₂.imp fun _ part' twins marked => ?_
        exact decide_eq_true (of_decide_eq_true marked part' (.inl twins))
    · obtain rfl := Option.some.inj (here.symm.trans here')
      exact of_decide_eq_true marked id' (.inl ⟨core, core', cuts, cuts', twins⟩)
  · obtain ⟨body, body', called, called', bodies⟩ := h.bodies slots
    obtain rfl := Option.some.inj (here.symm.trans called)
    exact .call called' (of_decide_eq_true marked body' (.inl bodies))

/-- Twins have the same marks. -/
theorem isMarked_eq (h : SideBySide p p') {id id' : ParserId} (twins : CutTwins p.draft p'.draft id id') :
    isMarked p.nullability id = isMarked p'.nullability id' := by
  rw [Bool.eq_iff_iff, isMarked_iff, isMarked_iff]
  exact ⟨h.nullable twins, h.symm.nullable twins.symm⟩

/-- Only calls refer to slots. -/
theorem slotIndex?_part (ordered : p.InOrder) {id part : ParserId} {label : Option String} {operator : Operator}
    (here : p.parsers[id]? = some ⟨label, operator⟩) (other : ∀ target, operator ≠ .call target)
    (member : part ∈ operator.parts) : p.slotIndex? part = none := by
  refine slotIndex?_eq_none ?_
  cases ordered.stands here with
  | slot _ _ => exact absurd rfl (other _)
  | call _ _ => exact absurd rfl (other _)
  | inner _ _ parts => exact (parts part member).2

/-- What is inside of cutpoints is called before any input is taken if they are. -/
theorem starts_of_cuts (ordered : p.InOrder) {id core : ParserId}
    (cuts : Relation.ReflTransGen (CutAround p.draft) id core) {index : Nat} (starts : p.Starts core index) :
    p.Starts id index := by
  induction cuts using Relation.ReflTransGen.head_induction_on with
  | refl => exact starts
  | @head id inner around _ ih =>
    obtain ⟨label, here⟩ := around
    have here : p.parsers[id]? = some ⟨label, .cut inner⟩ := here
    have operator : p.operator? id = some (.cut inner) := by rw [operator?, here, Option.map_some]
    have plain := slotIndex?_part ordered here (fun _ same => by cases same) List.mem_cons_self
    exact .part ⟨.cut inner, operator, List.mem_cons_self⟩ plain ih

/-- Twins call the same slots before any input is taken. -/
theorem starts (h : SideBySide p p') {id id' : ParserId} (twins : CutTwins p.draft p'.draft id id') {index : Nat}
    (starts : p.Starts id index) : p'.Starts id' index := by
  induction starts generalizing id' with
  | @slot id target index called known =>
    obtain ⟨core, core', cuts, cuts', twins⟩ := twins
    obtain ⟨⟨label, _⟩, here, rfl⟩ := exists_operator called
    have here : p.draft.parsers[id]? = some ⟨label, .call target⟩ := here
    refine starts_of_cuts h.ordered' cuts' ?_
    rcases cuts.cases_head with rfl | ⟨inner, ⟨_, around⟩, -⟩
    · cases twins with
      | call found found' slots =>
        obtain ⟨-, same⟩ := Parser.mk.inj (Option.some.inj (here.symm.trans found))
        obtain rfl := Operator.call.inj same
        obtain ⟨i, name, listed, listed'⟩ := slots
        obtain rfl := Option.some.inj (known.symm.trans (slotIndex?_of_getElem? h.distinct listed))
        refine .slot ?_ (slotIndex?_of_getElem? h.distinct' listed')
        exact congrArg (Option.map Parser.operator) found'
      | akin found _ akin _ =>
        obtain ⟨-, rfl⟩ := Parser.mk.inj (Option.some.inj (here.symm.trans found))
        cases akin
    · cases here.symm.trans around
  | @part id part index head plain _ ih =>
    obtain ⟨core, core', cuts, cuts', twins⟩ := twins
    obtain ⟨operator, found, head⟩ := head
    obtain ⟨⟨label, _⟩, here, rfl⟩ := exists_operator found
    rcases cuts.cases_head with rfl | ⟨inner, ⟨_, around⟩, cuts⟩
    · cases twins with
      | call found found' slots =>
        obtain ⟨-, rfl⟩ := Parser.mk.inj (Option.some.inj (here.symm.trans found))
        obtain rfl := List.mem_singleton.mp head
        obtain ⟨i, name, listed, -⟩ := slots
        cases plain.symm.trans (slotIndex?_of_getElem? h.distinct listed)
      | @akin _ label' _ operator' found found' akin parts =>
        obtain ⟨-, rfl⟩ := Parser.mk.inj (Option.some.inj (here.symm.trans found))
        have heads : List.Forall₂ (CutTwins p.draft p'.draft) _ (operator'.startHeads p'.nullability) :=
          akin.startHeads h.isMarked_eq parts.forall₂
        obtain ⟨part', head', twins⟩ := exists_of_forall₂ heads head
        have plain' := slotIndex?_part h.ordered' found' akin.ne_call (operator'.startHeads_subset _ head')
        refine starts_of_cuts h.ordered' cuts' (.part ⟨operator', ?_, head'⟩ plain' (ih twins))
        exact congrArg (Option.map Parser.operator) found'
    · obtain ⟨-, rfl⟩ := Parser.mk.inj (Option.some.inj (here.symm.trans around))
      obtain rfl := List.mem_singleton.mp head
      exact ih ⟨core, core', cuts, cuts', twins⟩

/-- A slot leads to the slots that the one with its number leads to. -/
theorem leadsTo (h : SideBySide p p') {i j : Nat} (leads : p.LeadsTo i j) : p'.LeadsTo i j := by
  obtain ⟨slot, name, body, here, called, starts⟩ := leads
  obtain ⟨slot₁, slot', name', body₁, body', listed, listed', found, found', twins⟩ :=
    h.served i (List.getElem?_eq_some_iff.mp here).1
  obtain ⟨rfl, rfl⟩ := Prod.mk.inj (Option.some.inj (listed.symm.trans here))
  have same : p.operator? slot₁ = some (.call body₁) := congrArg (Option.map Parser.operator) found
  obtain rfl := Operator.call.inj (Option.some.inj (same.symm.trans called))
  refine ⟨slot', _, body', listed', ?_, h.starts twins.single starts⟩
  exact congrArg (Option.map Parser.operator) found'

theorem startEdges_eq (h : SideBySide p p') : p'.startEdges = p.startEdges := by
  have length := congrArg List.length h.names
  rw [List.length_map, List.length_map] at length
  apply List.ext_getElem
  · rw [startEdges, startEdges, List.length_map, List.length_map, length]
  · intro i inside' inside
    -- both lists are in order, and have the slots that are led to
    refine List.Pairwise.eq_of_mem_iff (pairwise_startEdges _ (List.getElem_mem inside'))
      (pairwise_startEdges _ (List.getElem_mem inside)) fun j => ?_
    have edge : j ∈ p.startEdges[i] ↔ p.LeadsTo i j := by
      rw [← edge_iff_leadsTo h.ordered, Edge, List.getElem?_eq_getElem inside, Option.getD_some]
    have edge' : j ∈ p'.startEdges[i] ↔ p'.LeadsTo i j := by
      rw [← edge_iff_leadsTo h.ordered', Edge, List.getElem?_eq_getElem inside', Option.getD_some]
    rw [edge, edge']
    exact ⟨h.symm.leadsTo, h.leadsTo⟩

/-- Programs side by side have the same circles. -/
theorem cycleViolations_eq (h : SideBySide p p') : p'.cycleViolations = p.cycleViolations := by
  have named (i : Nat) : p'.slots[i]?.map (·.2) = p.slots[i]?.map (·.2) := by
    rw [← List.getElem?_map, ← List.getElem?_map, h.names]
  have routes : p'.route = p.route := by
    funext cycle
    simp only [route, named]
  rw [cycleViolations, cycleViolations, h.startEdges_eq, routes]

end SideBySide

end Program
end GrammarKit
