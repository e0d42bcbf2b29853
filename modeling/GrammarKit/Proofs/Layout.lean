/-
Module: GrammarKit.Proofs.Layout
Purpose: Where a program keeps the terms of its grammar.  Compilation only adds parsers and sets the slots
  of the rules it has just opened, so at its end every term has its parser, made of the parsers of its parts
  that stand before it, and every name leads to the slot whose body was made of the rule that it means.
Main exports: BuiltAt, Sees, Sees.find?, Program.opens_ofGrammar, Program.built_ofGrammar
-/
import GrammarKit.Grammar.Scope
import GrammarKit.Program.Compile
import GrammarKit.Proofs.Features

namespace GrammarKit

/-- A term that stands for padding is a pattern, or a choice of terminals. -/
theorem Padding.terminals_of_ofTerm {t : Term} {padding : Padding} (h : ofTerm t = .ok padding) :
    (∃ pattern, t = .regex pattern) ∨ ∃ ts, t = .choice ts ∧ ∀ t ∈ ts, isTerminal t = true := by
  obtain ⟨⟨last, exempt⟩, split, h⟩ := Except.bind_eq_ok h
  cases t with
  | regex pattern => exact .inl ⟨pattern, rfl⟩
  | choice ts =>
    simp only [parts] at split
    split at split
    · next found =>
      cases split
      have whole := List.dropLast_append_getLast? _ found
      cases last with
      | regex pattern =>
        dsimp only at h
        split at h
        · cases h
        · split at h
          · cases h
          · next exempt =>
            refine .inr ⟨ts, rfl, fun t member => ?_⟩
            rw [← whole] at member
            rcases List.mem_append.mp member with inside | last
            · exact List.all_eq_true.mp (by simpa using exempt) t inside
            · rw [List.mem_singleton.mp last]
              rfl
      | _ => cases h
    · cases split
  | _ => cases split

namespace Program

/-! ### Terms in a draft -/

/-- The surroundings inside a table of rules, given those around it: each local name has a slot of its own
and hides those further out. -/
structure Opens (d : Draft) (s : Surroundings) (rules : Grammar) (inner : Surroundings) : Prop where
  backrefs : inner.backrefs = s.backrefs
  padding : Padding.ofGrammar rules s.padding = .ok inner.padding
  names : ∃ locals : Names, inner.names = locals ++ s.names ∧
    locals.map (·.1) = (rules.names.filter (· ≠ paddingRule)).reverse ∧
    ∀ entry ∈ locals, (entry.2, entry.1) ∈ d.slots

mutual
/-- The parser with index `id` is that of a term with the given label and surroundings.  The parsers it is
made of have smaller indices. -/
def BuiltAt (d : Draft) (s : Surroundings) (label : Option String) : Term → ParserId → Prop
  | .capture name t, id => BuiltAt d s (some name) t id
  | .withRules t rules, id =>
      ∃ inner, Opens d s rules inner ∧ BuiltTable d inner rules ∧ BuiltAt d inner label t id
  | .cut t, id =>
      ∃ inner < id, d.parsers[id]? = some ⟨label, .cut inner⟩ ∧ BuiltAt d s label t inner
  | .rule name, id =>
      ∃ slot, Table.lookup name s.names = some slot ∧ d.parsers[id]? = some ⟨label, .call slot⟩
  | .literal text, id =>
      ∃ made, terminal (.literal text) s.padding = .ok made ∧
        d.parsers[id]? = some ⟨label, .terminal made⟩
  | .regex pattern, id =>
      ∃ made, terminal (.regex pattern) s.padding = .ok made ∧
        d.parsers[id]? = some ⟨label, .terminal made⟩
  | .seq ts, id =>
      ∃ items, d.parsers[id]? = some ⟨label, .seq items⟩ ∧ BuiltItems d s id ts items
  | .choice ts, id =>
      ∃ alternatives, d.parsers[id]? = some ⟨label, .choice alternatives⟩ ∧
        BuiltAll d s id ts alternatives
  | .list element separator style, id =>
      ∃ elementId < id, ∃ separatorId < id,
        d.parsers[id]? = some ⟨label, .list elementId separatorId style separator.isCut⟩ ∧
        BuiltAt d s none element elementId ∧ BuiltAt d s none separator separatorId
  | .quant t min max, id =>
      ∃ inner < id, d.parsers[id]? = some ⟨label, .quant inner min max⟩ ∧ BuiltAt d s none t inner
  | .backref name default, id =>
      ∃ made, d.parsers[id]? = some ⟨label, .backref name made⟩ ∧
        BuiltDefault d { s with padding := none } id default made
  | .stack _, _ => False

/-- The items of a sequence are those of some terms, before the parser of the sequence. -/
def BuiltItems (d : Draft) (s : Surroundings) (whole : ParserId) : List Term → List Item → Prop
  | [], [] => True
  | t :: ts, item :: items =>
      item.parser < whole ∧ item.bind = bindName s t ∧ item.cut = t.isCut ∧
        BuiltAt d s none t item.parser ∧ BuiltItems d s whole ts items
  | _, _ => False

/-- Some parsers are those of several terms, before the parser of the whole. -/
def BuiltAll (d : Draft) (s : Surroundings) (whole : ParserId) : List Term → List ParserId → Prop
  | [], [] => True
  | t :: ts, id :: ids => id < whole ∧ BuiltAt d s none t id ∧ BuiltAll d s whole ts ids
  | _, _ => False

/-- A parser is that of a default, before the parser of the whole. -/
def BuiltDefault (d : Draft) (s : Surroundings) (whole : ParserId) :
    Option Term → Option ParserId → Prop
  | none, none => True
  | some t, some id => id < whole ∧ BuiltAt d s none t id
  | _, _ => False

/-- The slots of all rules of a table call their bodies. -/
def BuiltTable (d : Draft) (s : Surroundings) : Table Term → Prop
  | ⟨entries⟩ => BuiltEntries d s entries

/-- The slots of all rules among some entries call their bodies. -/
def BuiltEntries (d : Draft) (s : Surroundings) : List (String × Term) → Prop
  | [] => True
  | (name, t) :: entries =>
      (name ≠ paddingRule → ∃ slot body, Table.lookup name s.names = some slot ∧
        d.parsers[slot]? = some ⟨none, .call body⟩ ∧ BuiltAt d s (some name) t body) ∧
      BuiltEntries d s entries
end

/-- A parser that has been built is there. -/
theorem BuiltAt.lt_size {d : Draft} : ∀ {s label t id}, BuiltAt d s label t id → id < d.parsers.size
  | _, _, .capture _ t, _, h => BuiltAt.lt_size (t := t) h
  | _, _, .withRules _ _, _, ⟨_, _, _, body⟩ => body.lt_size
  | _, _, .cut _, _, ⟨_, _, here, _⟩ => (Array.getElem?_eq_some_iff.mp here).1
  | _, _, .rule _, _, ⟨_, _, here⟩ => (Array.getElem?_eq_some_iff.mp here).1
  | _, _, .literal _, _, ⟨_, _, here⟩ => (Array.getElem?_eq_some_iff.mp here).1
  | _, _, .regex _, _, ⟨_, _, here⟩ => (Array.getElem?_eq_some_iff.mp here).1
  | _, _, .seq _, _, ⟨_, here, _⟩ => (Array.getElem?_eq_some_iff.mp here).1
  | _, _, .choice _, _, ⟨_, here, _⟩ => (Array.getElem?_eq_some_iff.mp here).1
  | _, _, .list _ _ _, _, ⟨_, _, _, _, here, _⟩ => (Array.getElem?_eq_some_iff.mp here).1
  | _, _, .quant _ _ _, _, ⟨_, _, here, _⟩ => (Array.getElem?_eq_some_iff.mp here).1
  | _, _, .backref _ _, _, ⟨_, here, _⟩ => (Array.getElem?_eq_some_iff.mp here).1

/-! ### Growing drafts -/

/-- A parser that is no slot waiting for its body. -/
def Settled (parser : Parser) : Prop :=
  ∀ rule, parser.operator ≠ .pending rule

/-- A later draft: what was settled stays, and slots are only added. -/
structure Draft.Settles (d later : Draft) : Prop where
  size : d.parsers.size ≤ later.parsers.size
  parsers : ∀ {id : ParserId} {parser : Parser}, d.parsers[id]? = some parser → Settled parser →
    later.parsers[id]? = some parser
  slots : ∃ more, later.slots = d.slots ++ more

/-- A later draft in which all parsers stay as they were. -/
structure Draft.Grows (d later : Draft) : Prop where
  size : d.parsers.size ≤ later.parsers.size
  parsers : ∀ {id : ParserId}, id < d.parsers.size → later.parsers[id]? = d.parsers[id]?
  slots : ∃ more, later.slots = d.slots ++ more

namespace Draft

variable {d later last : Draft}

theorem Settles.refl (d : Draft) : d.Settles d :=
  ⟨Nat.le_refl _, fun found _ => found, [], (List.append_nil _).symm⟩

theorem Settles.trans (h : d.Settles later) (h' : later.Settles last) : d.Settles last := by
  obtain ⟨more, first⟩ := h.slots
  obtain ⟨others, second⟩ := h'.slots
  refine ⟨Nat.le_trans h.size h'.size, fun found settled => h'.parsers (h.parsers found settled) settled,
    more ++ others, ?_⟩
  rw [second, first, List.append_assoc]

theorem Grows.refl (d : Draft) : d.Grows d :=
  ⟨Nat.le_refl _, fun _ => rfl, [], (List.append_nil _).symm⟩

theorem Grows.trans (h : d.Grows later) (h' : later.Grows last) : d.Grows last := by
  obtain ⟨more, first⟩ := h.slots
  obtain ⟨others, second⟩ := h'.slots
  refine ⟨Nat.le_trans h.size h'.size, fun below => ?_, more ++ others, ?_⟩
  · rw [h'.parsers (Nat.lt_of_lt_of_le below h.size), h.parsers below]
  · rw [second, first, List.append_assoc]

theorem Grows.parser (h : d.Grows later) {id : ParserId} {parser : Parser} (found : d.parsers[id]? = some parser) :
    later.parsers[id]? = some parser := by
  obtain ⟨below, -⟩ := Array.getElem?_eq_some_iff.mp found
  rw [h.parsers below, found]

theorem Grows.settles (h : d.Grows later) : d.Settles later :=
  ⟨h.size, fun found _ => h.parser found, h.slots⟩

theorem Settles.mem_slots (h : d.Settles later) {slot : ParserId × String} (member : slot ∈ d.slots) :
    slot ∈ later.slots := by
  obtain ⟨more, same⟩ := h.slots
  rw [same]
  exact List.mem_append_left _ member

theorem grows_push (d : Draft) (label : Option String) (operator : Operator) :
    d.Grows (d.push label operator).2 := by
  refine ⟨by simp [push], fun below => ?_, [], (List.append_nil _).symm⟩
  simp only [push]
  rw [Array.getElem?_push_lt below]
  exact (Array.getElem?_eq_getElem below).symm

@[simp] theorem push_fst (d : Draft) (label : Option String) (operator : Operator) :
    (d.push label operator).1 = d.parsers.size := rfl

theorem getElem?_push (d : Draft) (label : Option String) (operator : Operator) :
    (d.push label operator).2.parsers[d.parsers.size]? = some ⟨label, operator⟩ :=
  Array.getElem?_push_size

theorem size_push (d : Draft) (label : Option String) (operator : Operator) :
    (d.push label operator).2.parsers.size = d.parsers.size + 1 :=
  Array.size_push _

theorem lt_size_push (d : Draft) (label : Option String) (operator : Operator) :
    d.parsers.size < (d.push label operator).2.parsers.size := by
  rw [size_push]
  exact Nat.lt_succ_self _

theorem slots_push (d : Draft) (label : Option String) (operator : Operator) :
    (d.push label operator).2.slots = d.slots := rfl

end Draft

section Mono

variable {d later : Draft}

theorem Opens.mono (settles : d.Settles later) {s inner : Surroundings} {rules : Grammar}
    (h : Opens d s rules inner) : Opens later s rules inner := by
  obtain ⟨locals, names, order, slots⟩ := h.names
  exact ⟨h.backrefs, h.padding, locals, names, order,
    fun entry member => settles.mem_slots (slots entry member)⟩

mutual
/-- What has been built stays built. -/
theorem BuiltAt.mono (settles : d.Settles later) : ∀ {s label t id},
    BuiltAt d s label t id → BuiltAt later s label t id
  | _, _, .capture _ t, _, h => BuiltAt.mono settles (t := t) h
  | _, _, .withRules _ _, _, ⟨inner, opens, table, body⟩ =>
      ⟨inner, opens.mono settles, BuiltTable.mono settles table, BuiltAt.mono settles body⟩
  | _, _, .cut _, _, ⟨inner, below, here, body⟩ =>
      ⟨inner, below, settles.parsers here nofun, BuiltAt.mono settles body⟩
  | _, _, .rule _, _, ⟨slot, found, here⟩ => ⟨slot, found, settles.parsers here nofun⟩
  | _, _, .literal _, _, ⟨made, built, here⟩ => ⟨made, built, settles.parsers here nofun⟩
  | _, _, .regex _, _, ⟨made, built, here⟩ => ⟨made, built, settles.parsers here nofun⟩
  | _, _, .seq _, _, ⟨items, here, parts⟩ =>
      ⟨items, settles.parsers here nofun, BuiltItems.mono settles parts⟩
  | _, _, .choice _, _, ⟨alternatives, here, parts⟩ =>
      ⟨alternatives, settles.parsers here nofun, BuiltAll.mono settles parts⟩
  | _, _, .list _ _ _, _, ⟨element, below, separator, below', here, first, second⟩ =>
      ⟨element, below, separator, below', settles.parsers here nofun, BuiltAt.mono settles first,
        BuiltAt.mono settles second⟩
  | _, _, .quant _ _ _, _, ⟨inner, below, here, body⟩ =>
      ⟨inner, below, settles.parsers here nofun, BuiltAt.mono settles body⟩
  | _, _, .backref _ _, _, ⟨made, here, body⟩ =>
      ⟨made, settles.parsers here nofun, BuiltDefault.mono settles body⟩

theorem BuiltItems.mono (settles : d.Settles later) : ∀ {s whole ts items},
    BuiltItems d s whole ts items → BuiltItems later s whole ts items
  | _, _, [], [], _ => trivial
  | _, _, _ :: _, _ :: _, ⟨below, bind, cut, here, others⟩ =>
      ⟨below, bind, cut, BuiltAt.mono settles here, BuiltItems.mono settles others⟩

theorem BuiltAll.mono (settles : d.Settles later) : ∀ {s whole ts ids},
    BuiltAll d s whole ts ids → BuiltAll later s whole ts ids
  | _, _, [], [], _ => trivial
  | _, _, _ :: _, _ :: _, ⟨below, here, others⟩ =>
      ⟨below, BuiltAt.mono settles here, BuiltAll.mono settles others⟩

theorem BuiltDefault.mono (settles : d.Settles later) : ∀ {s whole default made},
    BuiltDefault d s whole default made → BuiltDefault later s whole default made
  | _, _, none, none, _ => trivial
  | _, _, some _, some _, ⟨below, here⟩ => ⟨below, BuiltAt.mono settles here⟩

theorem BuiltTable.mono (settles : d.Settles later) : ∀ {s rules},
    BuiltTable d s rules → BuiltTable later s rules
  | _, ⟨_⟩, h => BuiltEntries.mono settles h

theorem BuiltEntries.mono (settles : d.Settles later) : ∀ {s entries},
    BuiltEntries d s entries → BuiltEntries later s entries
  | _, [], _ => trivial
  | _, (_, _) :: _, ⟨here, others⟩ => by
    refine ⟨fun rule => ?_, BuiltEntries.mono settles others⟩
    obtain ⟨slot, body, found, set, built⟩ := here rule
    exact ⟨slot, body, found, settles.parsers set nofun, BuiltAt.mono settles built⟩
end

end Mono

/-! ### Slots -/

/-- The names that the rules of a table get: those made last come first, and the padding rule has none.  Their slots
are listed in the order of the rules. -/
structure Registered (d : Draft) (names : Names) (entries : List (String × Term)) (names' : Names)
    (later : Draft) (locals : Names) : Prop where
  names : names' = locals ++ names
  order : locals.map (·.1) = ((entries.map (·.1)).filter (· ≠ paddingRule)).reverse
  grows : d.Grows later
  slots : later.slots = d.slots ++ (locals.map Prod.swap).reverse
  fresh : ∀ entry ∈ locals, d.parsers.size ≤ entry.2
  pending : ∀ entry ∈ locals, later.parsers[entry.2]? = some ⟨none, .pending entry.1⟩

theorem register_spec {d : Draft} {names : Names} {entries : List (String × Term)} {names' : Names}
    {later : Draft} (h : d.register names entries = (names', later)) :
    ∃ locals, Registered d names entries names' later locals := by
  induction entries generalizing d names with
  | nil =>
    simp only [Draft.register, Prod.mk.injEq] at h
    obtain ⟨rfl, rfl⟩ := h
    exact ⟨[], rfl, rfl, .refl d, (List.append_nil _).symm, nofun, nofun⟩
  | cons entry entries ih =>
    obtain ⟨name, t⟩ := entry
    simp only [Draft.register] at h
    split at h
    · next padding =>
      obtain ⟨locals, r⟩ := ih h
      refine ⟨locals, r.names, ?_, r.grows, r.slots, r.fresh, r.pending⟩
      simpa [padding] using r.order
    · next rule =>
      obtain ⟨locals, r⟩ := ih h
      have pushed := d.grows_push none (.pending name)
      have slots : later.slots = d.slots ++ ((locals ++ [(name, d.parsers.size)]).map Prod.swap).reverse := by
        rw [r.slots, d.slots_push, List.append_assoc]
        simp
      have grows : d.Grows later := by
        refine ⟨Nat.le_trans pushed.size r.grows.size, fun {id} below => ?_, _, slots⟩
        rw [r.grows.parsers (Nat.lt_of_lt_of_le below pushed.size), pushed.parsers below]
      have here : later.parsers[d.parsers.size]? = some ⟨none, .pending name⟩ := by
        rw [r.grows.parsers (d.lt_size_push _ _), d.getElem?_push]
      refine ⟨locals ++ [(name, d.parsers.size)], ?_, ?_, grows, slots, ?_, ?_⟩
      · rw [r.names, List.append_assoc]
        rfl
      · simp [r.order, rule]
      · intro entry member
        rcases List.mem_append.mp member with member | member
        · have above := r.fresh entry member
          rw [d.size_push] at above
          exact Nat.le_of_succ_le above
        · obtain rfl := List.mem_singleton.mp member
          exact Nat.le_refl _
      · intro entry member
        rcases List.mem_append.mp member with member | member
        · exact r.pending entry member
        · obtain rfl := List.mem_singleton.mp member
          exact here

namespace Registered

variable {d later : Draft} {names names' locals : Names} {entries : List (String × Term)}

/-- There is at most one slot for each entry. -/
theorem count (r : Registered d names entries names' later locals) :
    later.slots.length ≤ d.slots.length + entries.length := by
  have kept := List.length_filter_le (· ≠ paddingRule) (entries.map (·.1))
  have same := congrArg List.length r.order
  rw [List.length_map] at kept
  rw [List.length_map, List.length_reverse] at same
  rw [r.slots, List.length_append, List.length_reverse, List.length_map, same]
  exact Nat.add_le_add_left kept _

theorem mem_slots (r : Registered d names entries names' later locals) {entry : String × ParserId}
    (member : entry ∈ locals) : (entry.2, entry.1) ∈ later.slots := by
  rw [r.slots]
  exact List.mem_append_right _ (List.mem_reverse.mpr (List.mem_map_of_mem (f := Prod.swap) member))

theorem names_slots (r : Registered d names entries names' later locals) :
    (locals.map Prod.swap).reverse.map (·.2) = (entries.map (·.1)).filter (· ≠ paddingRule) := by
  rw [List.map_reverse, List.map_map, ← List.reverse_inj, List.reverse_reverse, ← r.order]
  rfl

/-- Each of the names leads to its slot. -/
theorem lookup_local (r : Registered d names entries names' later locals) (nodup : (entries.map (·.1)).Nodup)
    {entry : String × ParserId} (member : entry ∈ locals) : Table.lookup entry.1 names' = some entry.2 := by
  have distinct : (locals.map (·.1)).Nodup := by
    rw [r.order, List.nodup_reverse]
    exact nodup.filter _
  rw [r.names, Table.lookup_append, Table.lookup_of_nodup distinct member, Option.some_or]

/-- In every later draft the names that can be seen inside a table are its own and those around it. -/
theorem opens (s : Surroundings) (r : Registered d s.names entries names' later locals) {padding : Option Padding}
    (padded : Padding.ofGrammar ⟨entries⟩ s.padding = .ok padding) {last : Draft} (settles : later.Settles last) :
    Opens last s ⟨entries⟩ { s with names := names', padding := padding } :=
  ⟨rfl, padded, locals, r.names, r.order, fun _ member => settles.mem_slots (r.mem_slots member)⟩

/-- Each rule of a table that has just been registered has a slot that waits for it. -/
theorem lookup (r : Registered d names entries names' later locals) {name : String}
    (member : name ∈ entries.map (·.1)) (rule : name ≠ paddingRule) :
    ∃ slot, Table.lookup name names' = some slot ∧ d.parsers.size ≤ slot ∧
      later.parsers[slot]? = some ⟨none, .pending name⟩ := by
  have inside : name ∈ locals.map (·.1) := by
    rw [r.order, List.mem_reverse, List.mem_filter]
    exact ⟨member, by simpa using rule⟩
  obtain ⟨slot, found⟩ := Option.isSome_iff_exists.mp (Table.lookup_isSome.mpr inside)
  have entry := Table.mem_of_lookup found
  refine ⟨slot, ?_, r.fresh _ entry, r.pending _ entry⟩
  rw [r.names, Table.lookup_append, found, Option.some_or]

end Registered

/-! ### Compilation -/

/-- No table among some features has a name twice. -/
def DistinctNames (features : List Feature) : Prop :=
  ∀ names, Feature.rules names ∈ features → names.Nodup

theorem DistinctNames.mono {features smaller : List Feature} (h : DistinctNames features)
    (subset : smaller ⊆ features) : DistinctNames smaller :=
  fun names member => h names (subset member)

theorem DistinctNames.left {as bs : List Feature} (h : DistinctNames (as ++ bs)) : DistinctNames as :=
  h.mono (List.subset_append_left _ _)

theorem DistinctNames.right {as bs : List Feature} (h : DistinctNames (as ++ bs)) : DistinctNames bs :=
  h.mono (List.subset_append_right _ _)

theorem DistinctNames.tail {f : Feature} {fs : List Feature} (h : DistinctNames (f :: fs)) :
    DistinctNames fs :=
  h.mono (List.subset_cons_self _ _)

/-- What compiling a part of a grammar does to the draft: parsers are added, and at most `count` slots. -/
structure Compiled (d later : Draft) (count : Nat) : Prop where
  grows : d.Grows later
  count : later.slots.length ≤ d.slots.length + count

theorem Compiled.refl (d : Draft) : Compiled d d 0 :=
  ⟨.refl d, Nat.le_refl _⟩

theorem Compiled.trans {d later last : Draft} {m n : Nat} (h : Compiled d later m)
    (h' : Compiled later last n) : Compiled d last (m + n) :=
  ⟨h.grows.trans h'.grows, by have := h.count; have := h'.count; omega⟩

theorem Compiled.push {d later : Draft} {n : Nat} (h : Compiled d later n) (label : Option String)
    (operator : Operator) : Compiled d (later.push label operator).2 n :=
  ⟨h.grows.trans (later.grows_push label operator), by rw [Draft.slots_push]; exact h.count⟩

/-- Setting a slot that waits for its body settles it and changes nothing else. -/
theorem patch_settles {d : Draft} {slot : ParserId} {name : String} (body : ParserId)
    (waiting : d.parsers[slot]? = some ⟨none, .pending name⟩) :
    d.Settles (d.patch slot body) ∧ (d.patch slot body).parsers[slot]? = some ⟨none, .call body⟩ ∧
      ∀ {id : ParserId}, id ≠ slot → (d.patch slot body).parsers[id]? = d.parsers[id]? := by
  have other : ∀ {id : ParserId}, id ≠ slot → (d.patch slot body).parsers[id]? = d.parsers[id]? := by
    intro id ne
    simp [Draft.patch, Array.getElem?_modify, Ne.symm ne]
  refine ⟨⟨by simp [Draft.patch], fun {id parser} found settled => ?_, [], by simp [Draft.patch]⟩, ?_, other⟩
  · have ne : id ≠ slot := by
      rintro rfl
      rw [waiting] at found
      obtain rfl := Option.some.inj found
      exact settled name rfl
    rw [other ne, found]
  · simp [Draft.patch, Array.getElem?_modify, waiting]

/-- What is known of the rules of a table when their bodies are about to be compiled: no name occurs twice,
and each rule has a slot that waits for it. -/
structure Waiting (s : Surroundings) (d : Draft) (entries : List (String × Term)) : Prop where
  nodup : (entries.map (·.1)).Nodup
  slot : ∀ name ∈ entries.map (·.1), name ≠ paddingRule → ∃ slot,
    Table.lookup name s.names = some slot ∧ d.parsers[slot]? = some ⟨none, .pending name⟩

theorem Waiting.tail {s : Surroundings} {d : Draft} {entry : String × Term}
    {entries : List (String × Term)} (h : Waiting s d (entry :: entries)) : Waiting s d entries :=
  ⟨(List.nodup_cons.mp h.nodup).2, fun name member => h.slot name (.tail _ member)⟩

/-- The rules of a table that has just been registered wait for their bodies. -/
theorem waiting_register {d later : Draft} {names : Names} {s : Surroundings} {entries : List (String × Term)}
    (registered : d.register names entries = (s.names, later)) (nodup : (entries.map (·.1)).Nodup) :
    Waiting s later entries := by
  obtain ⟨locals, r⟩ := register_spec registered
  refine ⟨nodup, fun name member rule => ?_⟩
  obtain ⟨slot, found, -, pending⟩ := r.lookup member rule
  exact ⟨slot, found, pending⟩

/-- When the first of some rules has got its body, the others still wait. -/
theorem Waiting.patch {s : Surroundings} {d later : Draft} {name : String} {t : Term}
    {entries : List (String × Term)} (h : Waiting s d ((name, t) :: entries)) (grows : d.Grows later)
    {slot : ParserId} (pending : d.parsers[slot]? = some ⟨none, .pending name⟩) (body : ParserId) :
    Waiting s (later.patch slot body) entries := by
  obtain ⟨-, -, others⟩ := patch_settles body (grows.parser pending)
  refine ⟨h.tail.nodup, fun name' member rule' => ?_⟩
  obtain ⟨slot', found', pending'⟩ := h.tail.slot name' member rule'
  have ne : slot' ≠ slot := by
    rintro rfl
    have same := Option.some.inj (pending.symm.trans pending')
    simp only [Parser.mk.injEq, Operator.pending.injEq, true_and] at same
    exact (List.nodup_cons.mp h.nodup).1 (same ▸ member)
  exact ⟨slot', found', by rw [others ne, grows.parser pending']⟩

/-- What compiling the bodies of some rules does to the draft: besides adding parsers it sets their slots. -/
structure Filled (s : Surroundings) (d later : Draft) (entries : List (String × Term)) : Prop where
  settles : d.Settles later
  count : later.slots.length + entries.length ≤ d.slots.length + Term.ruleCountEntries entries
  built : BuiltEntries later s entries
  others : ∀ {id : ParserId}, id < d.parsers.size →
    (∀ name ∈ entries.map (·.1), name ≠ paddingRule → Table.lookup name s.names ≠ some id) →
    later.parsers[id]? = d.parsers[id]?

mutual
/-- Compiling a term makes its parser, and leaves what was there before as it was. -/
theorem build_spec : ∀ {s d label t id later}, build s d label t = .ok (id, later) →
    DistinctNames t.features →
    Compiled d later t.ruleCount ∧ id < later.parsers.size ∧ BuiltAt later s label t id
  | s, d, label, .capture name t, id, later, h, distinct => by
    rw [Term.ruleCount, BuiltAt]
    exact build_spec (t := t) h distinct.tail
  | s, d, label, .withRules t ⟨entries⟩, id, later, h, distinct => by
    obtain ⟨padding, padded, h⟩ := Except.bind_eq_ok h
    generalize registered : d.register s.names entries = made at h
    obtain ⟨names, d₁⟩ := made
    obtain ⟨d₂, filled, h⟩ := Except.bind_eq_ok h
    obtain ⟨locals, r⟩ := register_spec registered
    have table := distinct.right
    have waiting : Waiting { s with names := names, padding := padding } d₁ entries :=
      waiting_register registered (table _ List.mem_cons_self)
    have filled := buildEntries_spec filled table.tail waiting
    obtain ⟨compiled, bound, built⟩ := build_spec h distinct.left
    have settles := compiled.grows.settles
    -- the slots that were set are new ones
    have grows : d.Grows d₂ := by
      refine ⟨Nat.le_trans r.grows.size filled.settles.size, fun {id} below => ?_, ?_⟩
      · rw [filled.others (Nat.lt_of_lt_of_le below r.grows.size), r.grows.parsers below]
        intro name member rule found
        obtain ⟨slot, found', above, -⟩ := r.lookup member rule
        rw [found'] at found
        obtain rfl := Option.some.inj found
        exact absurd below (Nat.not_lt.mpr above)
      · exact (r.grows.settles.trans filled.settles).slots
    refine ⟨⟨grows.trans compiled.grows, ?_⟩, bound, ?_⟩
    · have := r.count
      have := filled.count
      have := compiled.count
      simp only [Term.ruleCount, Term.ruleCountTable]
      omega
    · exact ⟨{ s with names := names, padding := padding }, r.opens s padded (filled.settles.trans settles),
        BuiltEntries.mono settles filled.built, built⟩
  | s, d, label, .cut t, id, later, h, distinct => by
    obtain ⟨⟨inner, d₁⟩, body, h⟩ := Except.bind_eq_ok h
    cases h
    obtain ⟨compiled, bound, built⟩ := build_spec body distinct
    exact ⟨compiled.push _ _, Draft.lt_size_push _ _ _,
      inner, bound, Draft.getElem?_push _ _ _, built.mono (Draft.grows_push _ _ _).settles⟩
  | s, d, label, .rule name, id, later, h, _ => by
    simp only [build] at h
    split at h
    · next slot found =>
      cases h
      exact ⟨(Compiled.refl d).push _ _, Draft.lt_size_push _ _ _, slot, found, Draft.getElem?_push _ _ _⟩
    · cases h
  | s, d, label, .literal text, id, later, h, _ => by
    obtain ⟨made, terminal, h⟩ := Except.bind_eq_ok h
    cases h
    exact ⟨(Compiled.refl d).push _ _, Draft.lt_size_push _ _ _, made, terminal, Draft.getElem?_push _ _ _⟩
  | s, d, label, .regex pattern, id, later, h, _ => by
    obtain ⟨made, terminal, h⟩ := Except.bind_eq_ok h
    cases h
    exact ⟨(Compiled.refl d).push _ _, Draft.lt_size_push _ _ _, made, terminal, Draft.getElem?_push _ _ _⟩
  | s, d, label, .seq ts, id, later, h, distinct => by
    obtain ⟨⟨items, d₁⟩, parts, h⟩ := Except.bind_eq_ok h
    cases h
    obtain ⟨compiled, built⟩ := buildItems_spec parts distinct
    exact ⟨compiled.push _ _, Draft.lt_size_push _ _ _, items, Draft.getElem?_push _ _ _,
      (built _ (Nat.le_refl _)).mono (Draft.grows_push _ _ _).settles⟩
  | s, d, label, .choice ts, id, later, h, distinct => by
    obtain ⟨⟨alternatives, d₁⟩, parts, h⟩ := Except.bind_eq_ok h
    cases h
    obtain ⟨compiled, built⟩ := buildAll_spec parts distinct
    exact ⟨compiled.push _ _, Draft.lt_size_push _ _ _, alternatives, Draft.getElem?_push _ _ _,
      (built _ (Nat.le_refl _)).mono (Draft.grows_push _ _ _).settles⟩
  | s, d, label, .list element separator style, id, later, h, distinct => by
    obtain ⟨⟨elementId, d₁⟩, first, h⟩ := Except.bind_eq_ok h
    obtain ⟨⟨separatorId, d₂⟩, second, h⟩ := Except.bind_eq_ok h
    cases h
    obtain ⟨compiled, bound, built⟩ := build_spec first distinct.left
    obtain ⟨compiled', bound', built'⟩ := build_spec second distinct.right
    have pushed := (Draft.grows_push d₂ label
      (.list elementId separatorId style separator.isCut)).settles
    exact ⟨(compiled.trans compiled').push _ _, Draft.lt_size_push _ _ _,
      elementId, Nat.lt_of_lt_of_le bound compiled'.grows.size, separatorId, bound',
      Draft.getElem?_push _ _ _, built.mono (compiled'.grows.settles.trans pushed), built'.mono pushed⟩
  | s, d, label, .quant t min max, id, later, h, distinct => by
    obtain ⟨⟨inner, d₁⟩, body, h⟩ := Except.bind_eq_ok h
    cases h
    obtain ⟨compiled, bound, built⟩ := build_spec body distinct.tail
    exact ⟨compiled.push _ _, Draft.lt_size_push _ _ _,
      inner, bound, Draft.getElem?_push _ _ _, built.mono (Draft.grows_push _ _ _).settles⟩
  | s, d, label, .backref name default, id, later, h, distinct => by
    obtain ⟨⟨made, d₁⟩, body, h⟩ := Except.bind_eq_ok h
    cases h
    obtain ⟨compiled, built⟩ := buildDefault_spec body distinct.tail
    exact ⟨compiled.push _ _, Draft.lt_size_push _ _ _, made, Draft.getElem?_push _ _ _,
      (built _ (Nat.le_refl _)).mono (Draft.grows_push _ _ _).settles⟩
  | _, _, _, .stack _, _, _, h, _ => by cases h

theorem buildItems_spec : ∀ {s d ts items later}, buildItems s d ts = .ok (items, later) →
    DistinctNames (Term.featuresAll ts) →
    Compiled d later (Term.ruleCountAll ts) ∧
      ∀ whole, later.parsers.size ≤ whole → BuiltItems later s whole ts items
  | s, d, [], items, later, h, _ => by
    cases h
    exact ⟨.refl d, fun _ _ => trivial⟩
  | s, d, t :: ts, items, later, h, distinct => by
    obtain ⟨⟨id, d₁⟩, here, h⟩ := Except.bind_eq_ok h
    obtain ⟨⟨others, d₂⟩, rest, h⟩ := Except.bind_eq_ok h
    cases h
    obtain ⟨compiled, bound, built⟩ := build_spec here distinct.left
    obtain ⟨compiled', built'⟩ := buildItems_spec rest distinct.right
    refine ⟨compiled.trans compiled', fun whole above => ⟨?_, rfl, rfl, ?_, built' whole above⟩⟩
    · exact Nat.lt_of_lt_of_le (Nat.lt_of_lt_of_le bound compiled'.grows.size) above
    · exact built.mono compiled'.grows.settles

theorem buildAll_spec : ∀ {s d ts ids later}, buildAll s d ts = .ok (ids, later) →
    DistinctNames (Term.featuresAll ts) →
    Compiled d later (Term.ruleCountAll ts) ∧
      ∀ whole, later.parsers.size ≤ whole → BuiltAll later s whole ts ids
  | s, d, [], items, later, h, _ => by
    cases h
    exact ⟨.refl d, fun _ _ => trivial⟩
  | s, d, t :: ts, items, later, h, distinct => by
    obtain ⟨⟨id, d₁⟩, here, h⟩ := Except.bind_eq_ok h
    obtain ⟨⟨others, d₂⟩, rest, h⟩ := Except.bind_eq_ok h
    cases h
    obtain ⟨compiled, bound, built⟩ := build_spec here distinct.left
    obtain ⟨compiled', built'⟩ := buildAll_spec rest distinct.right
    refine ⟨compiled.trans compiled', fun whole above => ⟨?_, ?_, built' whole above⟩⟩
    · exact Nat.lt_of_lt_of_le (Nat.lt_of_lt_of_le bound compiled'.grows.size) above
    · exact built.mono compiled'.grows.settles

theorem buildDefault_spec : ∀ {s d default made later}, buildDefault s d default = .ok (made, later) →
    DistinctNames (Term.featuresDefault default) →
    Compiled d later (Term.ruleCountDefault default) ∧
      ∀ whole, later.parsers.size ≤ whole → BuiltDefault later s whole default made
  | s, d, none, made, later, h, _ => by
    cases h
    exact ⟨.refl d, fun _ _ => trivial⟩
  | s, d, some t, made, later, h, distinct => by
    obtain ⟨⟨id, d₁⟩, here, h⟩ := Except.bind_eq_ok h
    cases h
    obtain ⟨compiled, bound, built⟩ := build_spec here distinct
    exact ⟨compiled, fun whole above => ⟨Nat.lt_of_lt_of_le bound above, built⟩⟩

theorem buildEntries_spec : ∀ {s d entries later}, buildEntries s d entries = .ok later →
    DistinctNames (Term.featuresEntries entries) → Waiting s d entries → Filled s d later entries
  | s, d, [], later, h, _, _ => by
    cases h
    exact ⟨.refl d, Nat.le_refl _, trivial, fun _ _ => rfl⟩
  | s, d, (name, t) :: entries, later, h, distinct, waiting => by
    simp only [buildEntries] at h
    split at h
    · next padding =>
      have filled := buildEntries_spec h distinct.right waiting.tail
      refine ⟨filled.settles, ?_, ⟨fun rule => absurd padding rule, filled.built⟩,
        fun below others => filled.others below fun name member => others name (.tail _ member)⟩
      have := filled.count
      simp only [List.length_cons, Term.ruleCountEntries]
      omega
    · next rule =>
      obtain ⟨⟨body, d₁⟩, here, h⟩ := Except.bind_eq_ok h
      obtain ⟨slot, found, pending⟩ := waiting.slot name List.mem_cons_self rule
      simp only [found] at h
      have counted : DistinctNames t.features := by
        rw [Term.featuresEntries, if_neg fun padding => rule padding.1] at distinct
        exact distinct.left
      obtain ⟨compiled, bound, built⟩ := build_spec here counted
      obtain ⟨settles, set, others⟩ := patch_settles body (compiled.grows.parser pending)
      have filled := buildEntries_spec h distinct.right (waiting.patch compiled.grows pending body)
      have whole := settles.trans filled.settles
      refine ⟨compiled.grows.settles.trans whole, ?_, ⟨fun _ => ?_, filled.built⟩, fun {id} below free => ?_⟩
      · have patched : (d₁.patch slot body).slots = d₁.slots := rfl
        have := patched ▸ filled.count
        have := compiled.count
        simp only [List.length_cons, Term.ruleCountEntries]
        omega
      · exact ⟨slot, body, found, filled.settles.parsers set nofun, built.mono whole⟩
      · have ne : id ≠ slot := fun same => free name List.mem_cons_self rule (same ▸ found)
        rw [filled.others, others ne, compiled.grows.parsers below]
        · exact Nat.lt_of_lt_of_le (Nat.lt_of_lt_of_le below compiled.grows.size) settles.size
        · exact fun name' member => free name' (.tail _ member)
end

/-! ### Names and what they mean -/

/-- The names that can be seen inside the innermost of some surroundings. -/
def innermost : List Surroundings → Names
  | [] => []
  | s :: _ => s.names

/-- Surroundings that belong to the tables of a scope one by one, the innermost first, each opened inside
the names of the next and with the bodies of its rules in place. -/
inductive Sees (d : Draft) : List Surroundings → Scope → Prop
  | outside : Sees d [] []
  | inside {frames scope outer s rules} : Sees d frames scope → outer.names = innermost frames →
      Opens d outer rules s → BuiltTable d s rules → Sees d (s :: frames) (rules :: scope)

theorem mem_of_builtEntries {d : Draft} {s : Surroundings} {entries : List (String × Term)}
    (built : BuiltEntries d s entries) {name : String} (member : name ∈ entries.map (·.1))
    (rule : name ≠ paddingRule) :
    ∃ t slot body, Table.lookup name entries = some t ∧ Table.lookup name s.names = some slot ∧
      d.parsers[slot]? = some ⟨none, .call body⟩ ∧ BuiltAt d s (some name) t body := by
  induction entries with
  | nil => cases member
  | cons entry entries ih =>
    obtain ⟨other, t⟩ := entry
    obtain ⟨here, others⟩ := built
    simp only [Table.lookup]
    split
    · next same =>
      obtain rfl := same
      obtain ⟨slot, body, found, set, built⟩ := here rule
      exact ⟨t, slot, body, rfl, found, set, built⟩
    · next ne =>
      exact ih others ((List.mem_cons.mp member).resolve_left (Ne.symm ne))

namespace Sees

variable {d : Draft} {frames : List Surroundings} {scope : Scope} {name : String} {slot : ParserId}

/-- The padding rule is no rule that a name can mean. -/
theorem ne_paddingRule (sees : Sees d frames scope)
    (found : Table.lookup name (innermost frames) = some slot) : name ≠ paddingRule := by
  induction sees with
  | outside => cases found
  | inside _ outer opens _ ih =>
    obtain ⟨locals, names, order, -⟩ := opens.names
    rw [innermost, names, Table.lookup_append, outer] at found
    rcases Option.or_eq_some_iff.mp found with here | ⟨-, further⟩
    · have member := Table.lookup_isSome.mp (Option.isSome_of_eq_some here)
      rw [order, List.mem_reverse, List.mem_filter] at member
      simpa using member.2
    · exact ih further

/-- A name leads to the slot of the rule that it means: one whose body was made of the term of that rule, in
the surroundings in which the rule is defined. -/
theorem find? (sees : Sees d frames scope)
    (found : Table.lookup name (innermost frames) = some slot) :
    ∃ t inner s outer body, scope.find? name = some (t, inner) ∧ (slot, name) ∈ d.slots ∧
      d.parsers[slot]? = some ⟨none, .call body⟩ ∧ BuiltAt d s (some name) t body ∧
      Sees d (s :: outer) inner := by
  have rule := sees.ne_paddingRule found
  induction sees with
  | outside => cases found
  | @inside frames scope outer s rules further names opens built ih =>
    obtain ⟨locals, same, order, slots⟩ := opens.names
    have whole := found
    rw [innermost, same, Table.lookup_append, names] at found
    have inLocals : name ∈ locals.map (·.1) ↔ name ∈ rules.names := by
      rw [order, List.mem_reverse, List.mem_filter]
      simp [rule]
    rcases Option.or_eq_some_iff.mp found with here | ⟨absent, beyond⟩
    · have member := inLocals.mp (Table.lookup_isSome.mp (Option.isSome_of_eq_some here))
      obtain ⟨entries⟩ := rules
      obtain ⟨t, slot', body, value, found', set, body'⟩ := mem_of_builtEntries built member rule
      obtain rfl := Option.some.inj (whole.symm.trans found')
      have value : Table.get? ⟨entries⟩ name = some t := value
      refine ⟨t, _, s, frames, body, ?_, slots _ (Table.mem_of_lookup here), set, body',
        .inside further names opens built⟩
      rw [Scope.find?, value]
    · have value : rules.get? name = none := by
        rw [← Option.not_isSome_iff_eq_none, Table.get?, Table.lookup_isSome]
        intro member
        have present := Table.lookup_isSome.mpr (inLocals.mpr member)
        rw [absent] at present
        cases present
      obtain ⟨t, inner, s', outer', body, found', rest⟩ := ih beyond
      refine ⟨t, inner, s', outer', body, ?_, rest⟩
      rw [Scope.find?, value, found']

end Sees

/-! ### Whole grammars -/

/-- The parsers and slots of a program, as its compilation left them. -/
def draft (p : Program) : Draft :=
  ⟨p.parsers, p.slots⟩

/-- The program of a grammar holds all its rules, in one slot each, and a parse starts with the slots of the
rules that are not local. -/
theorem opens_ofGrammar {g : Grammar} {p : Program} (h : ofGrammar g = .ok p)
    (distinct : DistinctNames g.features) :
    ∃ s, Opens p.draft ⟨Term.backrefNamesTable g, [], none⟩ g s ∧ BuiltTable p.draft s g ∧
      p.slots.length ≤ g.ruleCount ∧ ∀ name, p.rules.get? name = Table.lookup name s.names := by
  obtain ⟨entries⟩ := g
  obtain ⟨padding, padded, h⟩ := Except.bind_eq_ok h
  generalize registered : Draft.register ⟨#[], []⟩ [] entries = made at h
  obtain ⟨names, d⟩ := made
  obtain ⟨later, filled, h⟩ := Except.bind_eq_ok h
  obtain ⟨locals, r⟩ := register_spec registered
  have waiting : Waiting ⟨Term.backrefNamesTable ⟨entries⟩, names, padding⟩ d entries :=
    waiting_register registered (distinct _ List.mem_cons_self)
  have filled := buildEntries_spec filled distinct.tail waiting
  split at h
  · cases h
  · obtain rfl := Except.ok.inj h
    have opens : Opens later ⟨Term.backrefNamesTable ⟨entries⟩, [], none⟩ ⟨entries⟩
        ⟨Term.backrefNamesTable ⟨entries⟩, names, padding⟩ :=
      r.opens ⟨_, [], none⟩ padded filled.settles
    refine ⟨_, opens, filled.built, ?_, fun name => ?_⟩
    · have := filled.count
      have := r.count
      simp only [Grammar.ruleCount, Term.ruleCountTable]
      simp only [List.length_nil] at this
      omega
    · refine (Table.lookup_filterMap (Table.lookup · names) name entries).trans ?_
      cases here : Table.lookup name entries with
      | some t => rfl
      | none =>
        -- names that are no rules have no slots
        refine (Option.not_isSome_iff_eq_none.mp fun found => ?_).symm
        rw [Table.lookup_isSome, r.names, List.append_nil, r.order, List.mem_reverse] at found
        have present := Table.lookup_isSome.mpr (List.mem_filter.mp found).1
        rw [here] at present
        cases present

theorem built_ofGrammar {g : Grammar} {p : Program} (h : ofGrammar g = .ok p)
    (distinct : DistinctNames g.features) :
    ∃ s, Sees p.draft [s] [g] ∧ p.slots.length ≤ g.ruleCount ∧
      ∀ {name slot}, p.rules.get? name = some slot → Table.lookup name s.names = some slot := by
  obtain ⟨s, opens, built, count, starts⟩ := opens_ofGrammar h distinct
  exact ⟨s, .inside .outside rfl opens built, count, fun found => (starts _).symm.trans found⟩

end Program
end GrammarKit
