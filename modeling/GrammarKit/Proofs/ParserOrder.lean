/-
Module: GrammarKit.Proofs.ParserOrder
Purpose: How the parsers of a program refer to each other.  A slot calls a body; any other parser calls a
  slot or is made of parsers that stand before it.  So every circle of references leads through a call.
Main exports: Operator.parts, Program.Draft.Ordered, Program.InOrder, Program.inOrder_ofGrammar
-/
import GrammarKit.Proofs.Layout

namespace GrammarKit

/-- The parsers that an operator refers to. -/
def Operator.parts : Operator → List ParserId
  | .pending _ => []
  | .terminal _ => []
  | .call target => [target]
  | .seq items => items.map Item.parser
  | .choice alternatives => alternatives
  | .list element separator _ _ => [element, separator]
  | .quant term _ _ => [term]
  | .backref _ default => default.toList
  | .cut inner => [inner]

namespace Program.Draft

/-- Whether a parser is the slot of a rule. -/
def IsSlot (d : Draft) (id : ParserId) : Prop :=
  ∃ name, (id, name) ∈ d.slots

/-- A parser below a bound that is no slot. -/
def IsInner (d : Draft) (bound id : ParserId) : Prop :=
  id < bound ∧ ¬ d.IsSlot id

/-- What an operator may refer to: the slots of rules in a call, and else parsers below a bound that are no
slots. -/
def Supports (d : Draft) (bound : ParserId) : Operator → Prop
  | .pending _ => False
  | .call target => d.IsSlot target
  | operator => ∀ part ∈ operator.parts, d.IsInner bound part

/-- What may stand at an index: a slot that waits for its body or calls it, or a parser that is no slot and
refers only to slots and to what is before it. -/
inductive Placed (d : Draft) (id : ParserId) : Operator → Prop
  | waiting {name} : d.IsSlot id → Placed d id (.pending name)
  | slot {body} : d.IsSlot id → d.IsInner d.parsers.size body → Placed d id (.call body)
  | inner {operator} : ¬ d.IsSlot id → d.Supports id operator → Placed d id operator

/-- A draft in which all parsers stand where they may, and no slot is listed twice. -/
structure Ordered (d : Draft) : Prop where
  slots : ∀ {id}, d.IsSlot id → id < d.parsers.size
  distinct : (d.slots.map (·.1)).Nodup
  parsers : ∀ {id : ParserId} {parser : Parser}, d.parsers[id]? = some parser → d.Placed id parser.operator

/-- A later draft has all slots of an earlier one, and among the parsers that were there no others. -/
structure KeepsSlots (d later : Draft) : Prop where
  size : d.parsers.size ≤ later.parsers.size
  keeps : ∀ {id}, d.IsSlot id → later.IsSlot id
  reflects : ∀ {id}, id < d.parsers.size → later.IsSlot id → d.IsSlot id

namespace KeepsSlots

variable {d later last : Draft}

theorem refl (d : Draft) : d.KeepsSlots d :=
  ⟨Nat.le_refl _, id, fun _ => id⟩

theorem trans (h : d.KeepsSlots later) (h' : later.KeepsSlots last) : d.KeepsSlots last :=
  ⟨Nat.le_trans h.size h'.size, fun slot => h'.keeps (h.keeps slot),
    fun below slot => h.reflects below (h'.reflects (Nat.lt_of_lt_of_le below h.size) slot)⟩

theorem of_slots_eq (size : d.parsers.size ≤ later.parsers.size) (same : later.slots = d.slots) :
    d.KeepsSlots later := by
  have slots : ∀ id, later.IsSlot id ↔ d.IsSlot id := fun id => by rw [IsSlot, IsSlot, same]
  exact ⟨size, fun {id} => (slots id).mpr, fun {id} _ => (slots id).mp⟩

theorem isInner (h : d.KeepsSlots later) {bound id : ParserId} (inside : bound ≤ d.parsers.size)
    (inner : d.IsInner bound id) : later.IsInner bound id :=
  ⟨inner.1, fun slot => inner.2 (h.reflects (Nat.lt_of_lt_of_le inner.1 inside) slot)⟩

/-- What is inside an earlier draft is inside a later one. -/
theorem isInner_size (h : d.KeepsSlots later) {id : ParserId} (inner : d.IsInner d.parsers.size id) :
    later.IsInner later.parsers.size id :=
  ⟨Nat.lt_of_lt_of_le inner.1 h.size, (h.isInner (Nat.le_refl _) inner).2⟩

/-- What an operator refers to stays what it was. -/
theorem supports (h : d.KeepsSlots later) {bound : ParserId} (inside : bound ≤ d.parsers.size)
    {operator : Operator} (supported : d.Supports bound operator) : later.Supports bound operator := by
  have parts : (∀ part ∈ operator.parts, d.IsInner bound part) →
      ∀ part ∈ operator.parts, later.IsInner bound part :=
    fun earlier part member => h.isInner inside (earlier part member)
  cases operator with
  | pending name => exact supported
  | call target => exact h.keeps supported
  | _ => exact parts supported

theorem placed (h : d.KeepsSlots later) {id : ParserId} (inside : id < d.parsers.size)
    {operator : Operator} (placed : d.Placed id operator) : later.Placed id operator := by
  cases placed with
  | waiting slot => exact .waiting (h.keeps slot)
  | slot slot inner => exact .slot (h.keeps slot) (h.isInner_size inner)
  | inner plain supported =>
    exact .inner (fun slot => plain (h.reflects inside slot))
      (h.supports (Nat.le_of_lt inside) supported)

end KeepsSlots

/-! ### Steps of compilation -/

/-- What a step of compilation leads to: a draft in order that keeps the slots. -/
structure Leads (d later : Draft) : Prop where
  ordered : later.Ordered
  slots : d.KeepsSlots later

theorem Leads.trans {d later last : Draft} (h : d.Leads later) (h' : later.Leads last) : d.Leads last :=
  ⟨h'.ordered, h.slots.trans h'.slots⟩

variable {d : Draft}

theorem Ordered.leads_refl (h : d.Ordered) : d.Leads d :=
  ⟨h, .refl d⟩

/-- A new parser that refers only to what is there is the last one, and no slot. -/
theorem Ordered.leads_push (h : d.Ordered) (label : Option String) (operator : Operator)
    (supported : d.Supports d.parsers.size operator) :
    d.Leads (d.push label operator).2 ∧
      (d.push label operator).2.IsInner (d.push label operator).2.parsers.size d.parsers.size := by
  have size : (d.push label operator).2.parsers.size = d.parsers.size + 1 := Array.size_push _
  have keeps : d.KeepsSlots (d.push label operator).2 := .of_slots_eq (size ▸ Nat.le_succ _) rfl
  have plain : ¬ (d.push label operator).2.IsSlot d.parsers.size :=
    fun slot => Nat.lt_irrefl _ (h.slots slot)
  refine ⟨⟨⟨fun slot => ?_, h.distinct, fun {id parser} found => ?_⟩, keeps⟩, size ▸ Nat.lt_succ_self _, plain⟩
  · exact Nat.lt_of_lt_of_le (h.slots slot) keeps.size
  · rw [Draft.push, Array.getElem?_push] at found
    split at found
    · next last =>
      obtain rfl := Option.some.inj found
      rw [last]
      exact .inner plain (keeps.supports (Nat.le_refl _) supported)
    · obtain ⟨inside, -⟩ := Array.getElem?_eq_some_iff.mp found
      exact keeps.placed inside (h.parsers found)

/-- A new slot waits for its body. -/
theorem Ordered.leads_open (h : d.Ordered) (name : String) :
    d.Leads { (d.push none (.pending name)).2 with slots := d.slots ++ [(d.parsers.size, name)] } ∧
      IsSlot { (d.push none (.pending name)).2 with slots := d.slots ++ [(d.parsers.size, name)] }
        d.parsers.size := by
  generalize made : ({ (d.push none (.pending name)).2 with
    slots := d.slots ++ [(d.parsers.size, name)] } : Draft) = later
  have slots : ∀ id, later.IsSlot id ↔ d.IsSlot id ∨ id = d.parsers.size := by
    intro id
    rw [← made]
    simp [IsSlot, exists_or]
  have size : later.parsers.size = d.parsers.size + 1 := by
    rw [← made]
    exact Array.size_push _
  have keeps : d.KeepsSlots later := by
    refine ⟨size ▸ Nat.le_succ _, fun {id} slot => (slots id).mpr (.inl slot), fun {id} below slot => ?_⟩
    exact ((slots id).mp slot).resolve_right (Nat.ne_of_lt below)
  have distinct : (later.slots.map (·.1)).Nodup := by
    rw [← made, List.map_append]
    refine h.distinct.append (List.nodup_singleton _) fun id earlier last => ?_
    obtain rfl := List.mem_singleton.mp last
    obtain ⟨⟨_, other⟩, member, rfl⟩ := List.mem_map.mp earlier
    exact Nat.lt_irrefl _ (h.slots ⟨other, member⟩)
  refine ⟨⟨⟨fun {id} slot => ?_, distinct, fun {id parser} found => ?_⟩, keeps⟩, (slots _).mpr (.inr rfl)⟩
  · rcases (slots id).mp slot with earlier | last
    · exact Nat.lt_of_lt_of_le (h.slots earlier) keeps.size
    · exact last ▸ size ▸ Nat.lt_succ_self _
  · have found : (d.parsers.push ⟨none, .pending name⟩)[id]? = some parser := by
      rw [← made] at found
      exact found
    rw [Array.getElem?_push] at found
    split at found
    · next last =>
      obtain rfl := Option.some.inj found
      exact .waiting ((slots id).mpr (.inr last))
    · obtain ⟨inside, -⟩ := Array.getElem?_eq_some_iff.mp found
      exact keeps.placed inside (h.parsers found)

/-- A slot may be set to call any parser that is no slot. -/
theorem Ordered.leads_patch (h : d.Ordered) {slot body : ParserId} (isSlot : d.IsSlot slot)
    (inner : d.IsInner d.parsers.size body) : d.Leads (d.patch slot body) := by
  have keeps : d.KeepsSlots (d.patch slot body) := .of_slots_eq (by simp [Draft.patch]) rfl
  refine ⟨⟨fun slot => Nat.lt_of_lt_of_le (h.slots slot) keeps.size, h.distinct, fun {id parser} found => ?_⟩, keeps⟩
  rw [Draft.patch, Array.getElem?_modify] at found
  split at found
  · next same =>
    obtain ⟨earlier, -, rfl⟩ := Option.map_eq_some_iff.mp found
    exact keeps.placed (same ▸ h.slots isSlot) (.slot (same ▸ isSlot) inner)
  · obtain ⟨below, -⟩ := Array.getElem?_eq_some_iff.mp found
    exact keeps.placed below (h.parsers found)

/-- All names lead to slots. -/
def Names.AreSlots (names : Names) (d : Draft) : Prop :=
  ∀ entry ∈ names, d.IsSlot entry.2

theorem Names.AreSlots.mono {names : Names} {later : Draft} (h : Names.AreSlots names d) (keeps : d.KeepsSlots later) :
    Names.AreSlots names later :=
  fun entry member => keeps.keeps (h entry member)

theorem Ordered.leads_register (h : d.Ordered) {names : Names} (slots : Names.AreSlots names d)
    (entries : List (String × Term)) :
    d.Leads (d.register names entries).2 ∧
      Names.AreSlots (d.register names entries).1 (d.register names entries).2 := by
  induction entries generalizing d names with
  | nil => exact ⟨h.leads_refl, slots⟩
  | cons entry entries ih =>
    rw [register]
    split
    · exact ih h slots
    · obtain ⟨leads, isSlot⟩ := h.leads_open entry.1
      have slots' : Names.AreSlots ((entry.1, d.parsers.size) :: names)
          { (d.push none (.pending entry.1)).2 with slots := d.slots ++ [(d.parsers.size, entry.1)] } := by
        intro entry' member
        rcases List.mem_cons.mp member with rfl | member
        · exact isSlot
        · exact leads.slots.keeps (slots _ member)
      obtain ⟨leads', all⟩ := ih leads.ordered slots'
      exact ⟨leads.trans leads', all⟩

end Draft

/-! ### Compilation -/

open Draft

mutual
/-- Compiling a term leads to a draft in order, and its parser is no slot. -/
theorem build_ordered : ∀ {s d label t id later}, build s d label t = .ok (id, later) → d.Ordered →
    Names.AreSlots s.names d → d.Leads later ∧ later.IsInner later.parsers.size id
  | _, _, _, .capture _ t, _, _, h, ordered, names => build_ordered (t := t) h ordered names
  | s, d, _, .withRules t ⟨entries⟩, _, _, h, ordered, names => by
    obtain ⟨padding, -, h⟩ := Except.bind_eq_ok h
    obtain ⟨d', filled, h⟩ := Except.bind_eq_ok h
    obtain ⟨opened, slots⟩ := ordered.leads_register names entries
    have filled := buildEntries_ordered filled opened.ordered slots
    obtain ⟨leads, inner⟩ := build_ordered h filled.ordered (slots.mono filled.slots)
    exact ⟨(opened.trans filled).trans leads, inner⟩
  | _, _, _, .cut t, _, _, h, ordered, names => by
    obtain ⟨⟨inner, d'⟩, body, h⟩ := Except.bind_eq_ok h
    cases h
    obtain ⟨leads, isInner⟩ := build_ordered (t := t) body ordered names
    obtain ⟨leads', last⟩ := leads.ordered.leads_push _ (.cut inner) (by simpa [Supports, Operator.parts])
    exact ⟨leads.trans leads', last⟩
  | s, d, _, .rule name, _, _, h, ordered, names => by
    simp only [build] at h
    split at h
    · next slot found =>
      cases h
      exact ordered.leads_push _ _ (names _ (Table.mem_of_lookup found))
    · cases h
  | _, _, _, .literal _, _, _, h, ordered, _ => by
    obtain ⟨made, -, h⟩ := Except.bind_eq_ok h
    cases h
    exact ordered.leads_push _ _ nofun
  | _, _, _, .regex _, _, _, h, ordered, _ => by
    obtain ⟨made, -, h⟩ := Except.bind_eq_ok h
    cases h
    exact ordered.leads_push _ _ nofun
  | _, _, _, .seq ts, _, _, h, ordered, names => by
    obtain ⟨⟨items, d'⟩, parts, h⟩ := Except.bind_eq_ok h
    cases h
    obtain ⟨leads, inner⟩ := @buildItems_ordered _ _ ts _ _ parts ordered names
    obtain ⟨leads', last⟩ := leads.ordered.leads_push _ (.seq items) (by simpa [Supports, Operator.parts])
    exact ⟨leads.trans leads', last⟩
  | _, _, _, .choice ts, _, _, h, ordered, names => by
    obtain ⟨⟨alternatives, d'⟩, parts, h⟩ := Except.bind_eq_ok h
    cases h
    obtain ⟨leads, inner⟩ := @buildAll_ordered _ _ ts _ _ parts ordered names
    obtain ⟨leads', last⟩ := leads.ordered.leads_push _ (.choice alternatives) inner
    exact ⟨leads.trans leads', last⟩
  | _, _, _, .list element separator style, _, _, h, ordered, names => by
    obtain ⟨⟨elementId, d₁⟩, first, h⟩ := Except.bind_eq_ok h
    obtain ⟨⟨separatorId, d₂⟩, second, h⟩ := Except.bind_eq_ok h
    cases h
    obtain ⟨leads, inner⟩ := build_ordered (t := element) first ordered names
    obtain ⟨leads', inner'⟩ := build_ordered (t := separator) second leads.ordered (names.mono leads.slots)
    obtain ⟨leads'', last⟩ := leads'.ordered.leads_push _
      (.list elementId separatorId style separator.isCut)
      (by simpa [Supports, Operator.parts] using ⟨leads'.slots.isInner_size inner, inner'⟩)
    exact ⟨(leads.trans leads').trans leads'', last⟩
  | _, _, _, .quant t min max, _, _, h, ordered, names => by
    obtain ⟨⟨inner, d'⟩, body, h⟩ := Except.bind_eq_ok h
    cases h
    obtain ⟨leads, isInner⟩ := build_ordered (t := t) body ordered names
    obtain ⟨leads', last⟩ := leads.ordered.leads_push _ (.quant inner min max)
      (by simpa [Supports, Operator.parts])
    exact ⟨leads.trans leads', last⟩
  | _, _, _, .backref name default, _, _, h, ordered, names => by
    obtain ⟨⟨made, d'⟩, body, h⟩ := Except.bind_eq_ok h
    cases h
    obtain ⟨leads, inner⟩ := @buildDefault_ordered _ _ default _ _ body ordered names
    obtain ⟨leads', last⟩ := leads.ordered.leads_push _ (.backref name made)
      (by simpa [Supports, Operator.parts])
    exact ⟨leads.trans leads', last⟩
  | _, _, _, .stack _, _, _, h, _, _ => by cases h

theorem buildItems_ordered : ∀ {s d ts items later}, buildItems s d ts = .ok (items, later) → d.Ordered →
    Names.AreSlots s.names d → d.Leads later ∧ ∀ item ∈ items, later.IsInner later.parsers.size item.parser
  | _, _, [], _, _, h, ordered, _ => by
    cases h
    exact ⟨ordered.leads_refl, nofun⟩
  | _, _, t :: ts, _, _, h, ordered, names => by
    obtain ⟨⟨id, d₁⟩, here, h⟩ := Except.bind_eq_ok h
    obtain ⟨⟨others, d₂⟩, rest, h⟩ := Except.bind_eq_ok h
    cases h
    obtain ⟨leads, inner⟩ := build_ordered (t := t) here ordered names
    obtain ⟨leads', inners⟩ := @buildItems_ordered _ _ ts _ _ rest leads.ordered (names.mono leads.slots)
    refine ⟨leads.trans leads', fun item member => ?_⟩
    rcases List.mem_cons.mp member with rfl | member
    · exact leads'.slots.isInner_size inner
    · exact inners item member

theorem buildAll_ordered : ∀ {s d ts ids later}, buildAll s d ts = .ok (ids, later) → d.Ordered →
    Names.AreSlots s.names d → d.Leads later ∧ ∀ id ∈ ids, later.IsInner later.parsers.size id
  | _, _, [], _, _, h, ordered, _ => by
    cases h
    exact ⟨ordered.leads_refl, nofun⟩
  | _, _, t :: ts, _, _, h, ordered, names => by
    obtain ⟨⟨id, d₁⟩, here, h⟩ := Except.bind_eq_ok h
    obtain ⟨⟨others, d₂⟩, rest, h⟩ := Except.bind_eq_ok h
    cases h
    obtain ⟨leads, inner⟩ := build_ordered (t := t) here ordered names
    obtain ⟨leads', inners⟩ := @buildAll_ordered _ _ ts _ _ rest leads.ordered (names.mono leads.slots)
    refine ⟨leads.trans leads', fun id' member => ?_⟩
    rcases List.mem_cons.mp member with rfl | member
    · exact leads'.slots.isInner_size inner
    · exact inners id' member

theorem buildDefault_ordered : ∀ {s d default made later}, buildDefault s d default = .ok (made, later) →
    d.Ordered → Names.AreSlots s.names d →
    d.Leads later ∧ ∀ id ∈ made, later.IsInner later.parsers.size id
  | _, _, none, _, _, h, ordered, _ => by
    cases h
    exact ⟨ordered.leads_refl, nofun⟩
  | _, _, some t, _, _, h, ordered, names => by
    obtain ⟨⟨id, d₁⟩, here, h⟩ := Except.bind_eq_ok h
    cases h
    obtain ⟨leads, inner⟩ := build_ordered (t := t) here ordered names
    exact ⟨leads, fun id' same => Option.some.inj same ▸ inner⟩

theorem buildEntries_ordered : ∀ {s d entries later}, buildEntries s d entries = .ok later → d.Ordered →
    Names.AreSlots s.names d → d.Leads later
  | _, _, [], _, h, ordered, _ => by
    cases h
    exact ordered.leads_refl
  | s, _, (name, t) :: entries, _, h, ordered, names => by
    simp only [buildEntries] at h
    split at h
    · exact buildEntries_ordered h ordered names
    · obtain ⟨⟨body, d'⟩, here, h⟩ := Except.bind_eq_ok h
      obtain ⟨leads, inner⟩ := build_ordered (t := t) here ordered names
      dsimp only at h
      split at h
      · next slot found =>
        have isSlot := leads.slots.keeps (names _ (Table.mem_of_lookup found))
        have patched := leads.ordered.leads_patch isSlot inner
        have later := leads.trans patched
        exact later.trans (buildEntries_ordered h patched.ordered (names.mono later.slots))
      · exact leads.trans (buildEntries_ordered h leads.ordered (names.mono leads.slots))
end

/-- What may stand at an index of a finished program: a slot that calls its body, a call of a slot, or a
parser that is made of parsers before it. -/
inductive Stands (p : Program) (id : ParserId) : Operator → Prop
  | slot {body} : p.draft.IsSlot id → p.draft.IsInner p.parsers.size body → Stands p id (.call body)
  | call {target} : ¬ p.draft.IsSlot id → p.draft.IsSlot target → Stands p id (.call target)
  | inner {operator} : ¬ p.draft.IsSlot id → (∀ target, operator ≠ .call target) →
      (∀ part ∈ operator.parts, p.draft.IsInner id part) → Stands p id operator

/-- A program in which all parsers stand where they may. -/
structure InOrder (p : Program) : Prop where
  slots : ∀ {id}, p.draft.IsSlot id → id < p.parsers.size
  stands : ∀ {id : ParserId} {parser : Parser}, p.parsers[id]? = some parser → p.Stands id parser.operator
  rules : ∀ {name slot}, p.rules.get? name = some slot → p.draft.IsSlot slot

variable {g : Grammar} {p : Program}

/-- No parser refers to one that is not there. -/
theorem InOrder.part_lt (h : p.InOrder) {id part : ParserId} {parser : Parser}
    (here : p.parsers[id]? = some parser) (member : part ∈ parser.operator.parts) : part < p.parsers.size := by
  obtain ⟨inside, -⟩ := Array.getElem?_eq_some_iff.mp here
  have stands := h.stands here
  obtain ⟨label, operator⟩ := parser
  cases stands with
  | slot _ inner => exact List.mem_singleton.mp member ▸ inner.1
  | call _ slot => exact List.mem_singleton.mp member ▸ h.slots slot
  | inner _ _ parts => exact Nat.lt_trans (parts part member).1 inside

theorem ordered_empty : Draft.Ordered ⟨#[], []⟩ := by
  constructor
  · rintro id ⟨name, member⟩
    cases member
  · exact .nil
  · intro id parser found
    cases found

/-- What compilation leaves behind is a draft in order.  None of its slots waits for a body, and the rules that a parse
can start with have slots. -/
theorem ordered_ofGrammar (h : ofGrammar g = .ok p) :
    p.draft.Ordered ∧ (∀ slot ∈ p.slots, p.draft.isPending slot.1 = false) ∧
      ∀ {name slot}, p.rules.get? name = some slot → p.draft.IsSlot slot := by
  obtain ⟨entries⟩ := g
  obtain ⟨padding, -, h⟩ := Except.bind_eq_ok h
  obtain ⟨d, filled, h⟩ := Except.bind_eq_ok h
  have nothing : Names.AreSlots [] ⟨#[], []⟩ := nofun
  obtain ⟨opened, slots⟩ := ordered_empty.leads_register nothing entries
  have leads := buildEntries_ordered filled opened.ordered slots
  split at h
  · cases h
  · next none =>
    obtain rfl := Except.ok.inj h
    refine ⟨leads.ordered, fun slot member => ?_, fun {name slot} found => ?_⟩
    · -- the last step of compilation refuses slots without bodies
      exact Bool.eq_false_iff.mpr (List.find?_eq_none.mp none slot member)
    · obtain ⟨entry, -, value⟩ := List.mem_filterMap.mp (Table.mem_of_lookup found)
      obtain ⟨slot', found', same⟩ := Option.map_eq_some_iff.mp value
      obtain ⟨rfl, rfl⟩ := Prod.mk.inj same
      exact leads.slots.keeps (slots _ (Table.mem_of_lookup found'))

/-- No parser of a program waits for a body. -/
theorem settled_ofGrammar (h : ofGrammar g = .ok p) {id : ParserId} {parser : Parser}
    (found : p.parsers[id]? = some parser) : Settled parser := by
  obtain ⟨ordered, called, -⟩ := ordered_ofGrammar h
  obtain ⟨label, operator⟩ := parser
  rintro name (rfl : operator = .pending name)
  cases ordered.parsers found with
  | waiting slot =>
    obtain ⟨rule, member⟩ := slot
    have complete := called _ member
    simp [isPending, show p.draft.parsers[id]? = some ⟨label, .pending name⟩ from found] at complete
  | inner _ supported => exact supported

/-- The parsers of a program stand in order. -/
theorem inOrder_ofGrammar (h : ofGrammar g = .ok p) : p.InOrder := by
  obtain ⟨ordered, -, rules⟩ := ordered_ofGrammar h
  refine ⟨ordered.slots, fun {id parser} found => ?_, rules⟩
  have settled := settled_ofGrammar h found
  obtain ⟨label, operator⟩ := parser
  cases ordered.parsers found with
  | waiting _ => exact absurd rfl (settled _)
  | slot slot inner => exact .slot slot inner
  | inner plain supported =>
    cases operator with
    | pending name => exact absurd rfl (settled name)
    | call target => exact .call plain supported
    | _ => exact .inner plain nofun supported

end Program
end GrammarKit
