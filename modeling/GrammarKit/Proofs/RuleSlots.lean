/-
Module: GrammarKit.Proofs.RuleSlots
Purpose: The slots of a program stand for the rules of its grammar one by one, local rules included, and each calls a
  body that was made of the term of its own rule.  So no slot is left that waits for a body, no parser leads out of
  the program, and a run never comes to a rule that was not compiled.
Main exports: Grammar.placedRules, Program.Serves, Program.slots_ofGrammar, Program.recognizerWith,
  Program.closed_ofGrammar
-/
import GrammarKit.Proofs.CompilationCorrect
import GrammarKit.Proofs.ParserOrder

namespace GrammarKit

/-! ### Rules and where they stand -/

/-- A rule where it is defined: its name, its term, and the environment in which the term is read. -/
structure PlacedRule where
  name : String
  term : Term
  env : Environment

/-- The rules of some entries.  The padding rule is no rule that can be called. -/
def PlacedRule.ofEntries (env : Environment) (entries : List (String × Term)) : List PlacedRule :=
  (entries.filter (·.1 ≠ paddingRule)).map fun entry => ⟨entry.1, entry.2, env⟩

/-- The rules of the innermost grammar of an environment. -/
def Environment.ownRules : Environment → List PlacedRule
  | .rules g :: outer => PlacedRule.ofEntries (.rules g :: outer) g.entries
  | _ => []

/-- All rules of a grammar, local ones included.  The rules of one grammar stand together, and before those of the
grammars inside them. -/
def Grammar.placedRules (g : Grammar) : List PlacedRule :=
  g.places.flatMap Environment.ownRules

namespace Program

/-- A slot serves a rule if it has the name of the rule and calls a body that was made of the term of the rule, in
surroundings that stand for the environment of the term. -/
def Serves (d : Draft) (backrefs : List String) (slot : ParserId × String) (rule : PlacedRule) : Prop :=
  slot.2 = rule.name ∧ ∃ s body, d.parsers[slot.1]? = some ⟨none, .call body⟩ ∧
    BuiltAt d s (some rule.name) rule.term body ∧ Fits d backrefs s rule.env

section Slots

variable {backrefs : List String} {d mid later last : Draft} {s : Surroundings} {env : Environment}
  {entries : List (String × Term)} {places places' : Environment → List Environment}

/-- The slots of the rules of a table, in their order, serve them once the bodies are made. -/
theorem serves_entries (fits : Fits last backrefs s env) {own : List (ParserId × String)}
    (order : own.map (·.2) = (entries.map (·.1)).filter (· ≠ paddingRule))
    (leads : ∀ slot ∈ own, Table.lookup slot.2 s.names = some slot.1) (built : BuiltEntries last s entries) :
    List.Forall₂ (Serves last backrefs) own (PlacedRule.ofEntries env entries) := by
  induction entries generalizing own with
  | nil =>
    obtain rfl := List.map_eq_nil_iff.mp order
    exact .nil
  | cons entry entries ih =>
    obtain ⟨name, t⟩ := entry
    obtain ⟨here, others⟩ := built
    by_cases padding : name = paddingRule
    · rw [PlacedRule.ofEntries, List.filter_cons_of_neg (by simpa using padding)]
      rw [List.map_cons, List.filter_cons_of_neg (by simpa using padding)] at order
      exact ih order leads others
    · rw [PlacedRule.ofEntries, List.filter_cons_of_pos (by simpa using padding)]
      rw [List.map_cons, List.filter_cons_of_pos (by simpa using padding)] at order
      obtain ⟨⟨slot, other⟩, own, rfl, same, rest⟩ := List.map_eq_cons_iff.mp order
      obtain rfl : other = name := same
      obtain ⟨slot', body, found, calls, body'⟩ := here padding
      obtain rfl := Option.some.inj ((leads _ List.mem_cons_self).symm.trans found)
      exact .cons ⟨rfl, s, body, calls, body', fits⟩
        (ih rest (fun slot member => leads slot (.tail _ member)) others)

/-- A later draft has all that was settled in an earlier one, and one more slot for each rule of the innermost
grammars of some places, in their order.  In whatever draft the later one ends up, and whatever environment its
surroundings stand for there, the new slots serve these rules. -/
structure Draft.Adds (d later : Draft) (backrefs : List String) (s : Surroundings)
    (places : Environment → List Environment) : Prop where
  settles : d.Settles later
  slots : ∃ more, later.slots = d.slots ++ more ∧ ∀ {last env}, later.Settles last → Fits last backrefs s env →
    List.Forall₂ (Serves last backrefs) more ((places env).flatMap Environment.ownRules)

namespace Draft.Adds

theorem refl (d : Draft) (backrefs : List String) (s : Surroundings) : d.Adds d backrefs s fun _ => [] :=
  ⟨.refl d, [], (List.append_nil _).symm, fun _ _ => .nil⟩

/-- Settling parsers without new slots. -/
theorem settle (h : d.Adds mid backrefs s places) (settles : mid.Settles later) (same : later.slots = mid.slots) :
    d.Adds later backrefs s places := by
  obtain ⟨more, slots, serves⟩ := h.slots
  exact ⟨h.settles.trans settles, more, same.trans slots, fun further => serves (settles.trans further)⟩

theorem push (h : d.Adds later backrefs s places) (label : Option String) (operator : Operator) :
    d.Adds (later.push label operator).2 backrefs s places :=
  h.settle (later.grows_push label operator).settles (later.slots_push label operator)

theorem append (h : d.Adds mid backrefs s places) (h' : mid.Adds later backrefs s places') :
    d.Adds later backrefs s fun env => places env ++ places' env := by
  obtain ⟨more, slots, serves⟩ := h.slots
  obtain ⟨more', slots', serves'⟩ := h'.slots
  refine ⟨h.settles.trans h'.settles, more ++ more', by rw [slots', slots, List.append_assoc], ?_⟩
  intro last env settles fits
  rw [List.flatMap_append]
  exact List.rel_append (serves (h'.settles.trans settles) fits) (serves' settles fits)

/-- The surroundings in the default of a back reference are those around it, without padding. -/
theorem default (h : d.Adds later backrefs { s with padding := none } places) :
    d.Adds later backrefs s fun env => places (.default :: env) := by
  obtain ⟨more, slots, serves⟩ := h.slots
  exact ⟨h.settles, more, slots, fun settles fits => serves settles fits.default⟩

/-- The slots registered for a table come before those of the tables inside it. -/
theorem register {names locals : Names} (r : Registered d s.names entries names mid locals)
    {padding : Option Padding} (padded : Padding.ofGrammar ⟨entries⟩ s.padding = .ok padding)
    (nodup : (entries.map (·.1)).Nodup) (refers : Term.backrefNamesEntries entries ⊆ backrefs)
    (built : BuiltEntries later { s with names := names, padding := padding } entries)
    (h : mid.Adds later backrefs { s with names := names, padding := padding } places) :
    d.Adds later backrefs s fun env => (.rules ⟨entries⟩ :: env) :: places (.rules ⟨entries⟩ :: env) := by
  obtain ⟨more, slots, serves⟩ := h.slots
  refine ⟨r.grows.settles.trans h.settles, (locals.map Prod.swap).reverse ++ more,
    by rw [slots, r.slots, List.append_assoc], fun {last env} settles fits => ?_⟩
  have built := BuiltEntries.mono settles built
  have inside : Fits last backrefs { s with names := names, padding := padding } (.rules ⟨entries⟩ :: env) :=
    fits.rules (r.opens s padded (h.settles.trans settles)) built refers
  -- the names of the table hide those around it, so each leads to its own slot
  have leads : ∀ slot ∈ (locals.map Prod.swap).reverse, Table.lookup slot.2 names = some slot.1 := by
    intro slot listed
    obtain ⟨entry, member, rfl⟩ := List.mem_map.mp (List.mem_reverse.mp listed)
    exact r.lookup_local nodup member
  exact List.rel_append (serves_entries inside r.names_slots leads built) (serves settles inside)

end Draft.Adds

end Slots

/-! ### Compilation -/

section Compilation

open Term

variable {backrefs : List String}

mutual
/-- Compiling a term adds slots for the rules inside it. -/
theorem build_adds : ∀ {s d label t id later}, build s d label t = .ok (id, later) → DistinctNames t.features →
    t.backrefNames ⊆ backrefs → d.Adds later backrefs s (places · t)
  | _, _, _, .capture _ t, _, _, h, distinct, refers => build_adds (t := t) h distinct.tail refers
  | s, d, label, .withRules t ⟨entries⟩, id, later, h, distinct, refers => by
    obtain ⟨padding, padded, h⟩ := Except.bind_eq_ok h
    generalize registered : d.register s.names entries = made at h
    obtain ⟨names, d₁⟩ := made
    obtain ⟨d₂, filled, h⟩ := Except.bind_eq_ok h
    obtain ⟨locals, r⟩ := register_spec registered
    obtain ⟨inside, others⟩ := List.append_subset.mp refers
    have table := distinct.right
    have nodup : (entries.map (·.1)).Nodup := table _ List.mem_cons_self
    have waiting : Waiting { s with names := names, padding := padding } d₁ entries :=
      waiting_register registered nodup
    have added := buildEntries_adds filled table.tail others waiting
    have body := build_adds h distinct.left inside
    -- the bodies stay where they are while the term is compiled
    have built := BuiltEntries.mono body.settles (buildEntries_spec filled table.tail waiting).built
    exact .register r padded nodup others built (added.append body)
  | _, _, _, .cut t, _, _, h, distinct, refers => by
    obtain ⟨⟨inner, d₁⟩, body, h⟩ := Except.bind_eq_ok h
    cases h
    exact (build_adds (t := t) body distinct refers).push _ _
  | s, d, _, .rule name, _, _, h, _, _ => by
    simp only [build] at h
    split at h
    · cases h
      exact (Draft.Adds.refl d backrefs s).push _ _
    · cases h
  | s, d, _, .literal _, _, _, h, _, _ => by
    obtain ⟨made, -, h⟩ := Except.bind_eq_ok h
    cases h
    exact (Draft.Adds.refl d backrefs s).push _ _
  | s, d, _, .regex _, _, _, h, _, _ => by
    obtain ⟨made, -, h⟩ := Except.bind_eq_ok h
    cases h
    exact (Draft.Adds.refl d backrefs s).push _ _
  | _, _, _, .seq ts, _, _, h, distinct, refers => by
    obtain ⟨⟨items, d₁⟩, parts, h⟩ := Except.bind_eq_ok h
    cases h
    exact (buildItems_adds parts distinct refers).push _ _
  | _, _, _, .choice ts, _, _, h, distinct, refers => by
    obtain ⟨⟨alternatives, d₁⟩, parts, h⟩ := Except.bind_eq_ok h
    cases h
    exact (buildAll_adds parts distinct refers).push _ _
  | _, _, _, .list element separator _, _, _, h, distinct, refers => by
    obtain ⟨⟨elementId, d₁⟩, first, h⟩ := Except.bind_eq_ok h
    obtain ⟨⟨separatorId, d₂⟩, second, h⟩ := Except.bind_eq_ok h
    cases h
    obtain ⟨left, right⟩ := List.append_subset.mp refers
    exact ((build_adds (t := element) first distinct.left left).append
      (build_adds (t := separator) second distinct.right right)).push _ _
  | _, _, _, .quant t _ _, _, _, h, distinct, refers => by
    obtain ⟨⟨inner, d₁⟩, body, h⟩ := Except.bind_eq_ok h
    cases h
    exact (build_adds (t := t) body distinct.tail refers).push _ _
  | _, _, _, .backref _ default, _, _, h, distinct, refers => by
    obtain ⟨⟨made, d₁⟩, body, h⟩ := Except.bind_eq_ok h
    cases h
    obtain ⟨-, inside⟩ := List.cons_subset.mp refers
    exact (buildDefault_adds body distinct.tail inside).default.push _ _
  | _, _, _, .stack _, _, _, h, _, _ => by cases h

theorem buildItems_adds : ∀ {s d ts items later}, buildItems s d ts = .ok (items, later) →
    DistinctNames (featuresAll ts) → backrefNamesAll ts ⊆ backrefs → d.Adds later backrefs s (placesAll · ts)
  | s, d, [], _, _, h, _, _ => by
    cases h
    exact .refl d backrefs s
  | _, _, t :: ts, _, _, h, distinct, refers => by
    obtain ⟨⟨id, d₁⟩, here, h⟩ := Except.bind_eq_ok h
    obtain ⟨⟨others, d₂⟩, rest, h⟩ := Except.bind_eq_ok h
    cases h
    obtain ⟨first, further⟩ := List.append_subset.mp refers
    exact (build_adds here distinct.left first).append (buildItems_adds rest distinct.right further)

theorem buildAll_adds : ∀ {s d ts ids later}, buildAll s d ts = .ok (ids, later) →
    DistinctNames (featuresAll ts) → backrefNamesAll ts ⊆ backrefs → d.Adds later backrefs s (placesAll · ts)
  | s, d, [], _, _, h, _, _ => by
    cases h
    exact .refl d backrefs s
  | _, _, t :: ts, _, _, h, distinct, refers => by
    obtain ⟨⟨id, d₁⟩, here, h⟩ := Except.bind_eq_ok h
    obtain ⟨⟨others, d₂⟩, rest, h⟩ := Except.bind_eq_ok h
    cases h
    obtain ⟨first, further⟩ := List.append_subset.mp refers
    exact (build_adds here distinct.left first).append (buildAll_adds rest distinct.right further)

theorem buildDefault_adds : ∀ {s d default made later}, buildDefault s d default = .ok (made, later) →
    DistinctNames (featuresDefault default) → backrefNamesDefault default ⊆ backrefs →
    d.Adds later backrefs s (placesDefault · default)
  | s, d, none, _, _, h, _, _ => by
    cases h
    exact .refl d backrefs s
  | _, _, some t, _, _, h, distinct, refers => by
    obtain ⟨⟨id, d₁⟩, here, h⟩ := Except.bind_eq_ok h
    cases h
    exact build_adds (t := t) here distinct refers

theorem buildEntries_adds : ∀ {s d entries later}, buildEntries s d entries = .ok later →
    DistinctNames (featuresEntries entries) → backrefNamesEntries entries ⊆ backrefs → Waiting s d entries →
    d.Adds later backrefs s (placesEntries · entries)
  | s, d, [], _, h, _, _, _ => by
    cases h
    exact .refl d backrefs s
  | s, d, (name, t) :: entries, later, h, distinct, refers, waiting => by
    obtain ⟨first, further⟩ := List.append_subset.mp refers
    simp only [buildEntries] at h
    simp only [placesEntries]
    split at h
    · next padding =>
      simp only [if_pos padding, List.nil_append]
      exact buildEntries_adds h distinct.right further waiting.tail
    · next rule =>
      simp only [if_neg rule]
      obtain ⟨⟨body, d₁⟩, here, h⟩ := Except.bind_eq_ok h
      obtain ⟨slot, found, pending⟩ := waiting.slot name List.mem_cons_self rule
      simp only [found] at h
      have counted : DistinctNames t.features := by
        rw [featuresEntries, if_neg fun padding => rule padding.1] at distinct
        exact distinct.left
      have grows := (build_spec here counted).1.grows
      have set := (build_adds here counted first).settle (patch_settles body (grows.parser pending)).1 rfl
      exact set.append (buildEntries_adds h distinct.right further (waiting.patch grows pending body))
end

/-- Once the bodies of all rules of a grammar have been made, the slots serve its rules one by one, and each name leads
to a slot. -/
theorem slots_filled {entries : List (String × Term)} {names : Names} {padding : Option Padding} {d later : Draft}
    (padded : Padding.ofGrammar ⟨entries⟩ none = .ok padding)
    (registered : Draft.register ⟨#[], []⟩ [] entries = (names, d))
    (filled : buildEntries ⟨backrefNamesTable ⟨entries⟩, names, padding⟩ d entries = .ok later)
    (distinct : DistinctNames (featuresTable ⟨entries⟩)) :
    List.Forall₂ (Serves later (backrefNamesTable ⟨entries⟩)) later.slots (Grammar.placedRules ⟨entries⟩) ∧
      ∀ entry ∈ names, (entry.2, entry.1) ∈ later.slots := by
  have nodup : (entries.map (·.1)).Nodup := distinct _ List.mem_cons_self
  have waiting : Waiting ⟨backrefNamesTable ⟨entries⟩, names, padding⟩ d entries := waiting_register registered nodup
  have built := (buildEntries_spec filled distinct.tail waiting).built
  have inside := buildEntries_adds filled distinct.tail (List.Subset.refl _) waiting
  obtain ⟨locals, r⟩ := register_spec registered
  have all : Draft.Adds ⟨#[], []⟩ later (backrefNamesTable ⟨entries⟩) ⟨backrefNamesTable ⟨entries⟩, [], none⟩ _ :=
    .register r padded nodup (List.Subset.refl _) built inside
  obtain ⟨more, slots, serves⟩ := all.slots
  refine ⟨slots ▸ serves (.refl later) .outside, fun entry member => ?_⟩
  rw [r.names, List.append_nil] at member
  exact inside.settles.mem_slots (r.mem_slots member)

end Compilation

/-! ### Whole grammars -/

section Grammars

variable {g : Grammar} {p : Program}

/-- The slots of a program serve the rules of its grammar one by one, and the rules that a parse can start with lead to
slots of their names. -/
theorem slots_ofGrammar (made : ofGrammar g = .ok p) (distinct : DistinctNames g.features) :
    List.Forall₂ (Serves p.draft (Term.backrefNamesTable g)) p.slots g.placedRules ∧
      ∀ entry ∈ p.rules.entries, (entry.2, entry.1) ∈ p.slots := by
  obtain ⟨entries⟩ := g
  obtain ⟨padding, padded, made⟩ := Except.bind_eq_ok made
  generalize registered : Draft.register ⟨#[], []⟩ [] entries = opened at made
  obtain ⟨names, d⟩ := opened
  obtain ⟨later, filled, made⟩ := Except.bind_eq_ok made
  obtain ⟨serve, listed⟩ := slots_filled padded registered filled distinct
  split at made
  · cases made
  · obtain rfl := Except.ok.inj made
    refine ⟨serve, fun entry member => ?_⟩
    obtain ⟨rule, -, value⟩ := List.mem_filterMap.mp member
    obtain ⟨slot, found, rfl⟩ := Option.map_eq_some_iff.mp value
    exact listed _ (Table.mem_of_lookup found)

end Grammars

end Program

/-! ### Runs -/

/-- What an operator does depends on the parsers it refers to only. -/
theorem Operator.recognizer_congr {self self' : ParserId → Recognizer} {operator : Operator}
    (same : ∀ part ∈ operator.parts, self part = self' part) (label : Option String) :
    operator.recognizer self label = operator.recognizer self' label := by
  cases operator with
  | pending name => rfl
  | terminal terminal => rfl
  | call target => exact same target List.mem_cons_self
  | cut inner => exact same inner List.mem_cons_self
  | seq items =>
    have steps : ∀ item ∈ items, (⟨item.bind, item.cut, self item.parser⟩ : Recognizer.Step)
        = ⟨item.bind, item.cut, self' item.parser⟩ :=
      fun item member => by rw [same item.parser (List.mem_map_of_mem member)]
    exact congrArg (Recognizer.sequence label) (List.map_congr_left steps)
  | choice alternatives => exact congrArg (Recognizer.choice label) (List.map_congr_left same)
  | list element separator style cutSeparator =>
    simp only [recognizer, same element List.mem_cons_self, same separator (.tail _ List.mem_cons_self)]
  | quant term min max => simp only [recognizer, same term List.mem_cons_self]
  | backref name default =>
    cases default with
    | none => rfl
    | some inner => simp only [recognizer, Option.map_some, same inner List.mem_cons_self]

/-- What an operator does, with a recognizer of one's choice for a slot that waits for its body. -/
def Operator.recognizerWith (uncompiled : String → Recognizer) (self : ParserId → Recognizer)
    (label : Option String) : Operator → Recognizer
  | .pending name => uncompiled name
  | operator => operator.recognizer self label

theorem Operator.recognizerWith_of_settled {operator : Operator} (settled : ∀ name, operator ≠ .pending name)
    (uncompiled : String → Recognizer) (self : ParserId → Recognizer) (label : Option String) :
    operator.recognizerWith uncompiled self label = operator.recognizer self label := by
  cases operator with
  | pending name => exact absurd rfl (settled name)
  | _ => rfl

namespace Program

/-- A run with recognizers of one's choice for slots that wait for their bodies and for parsers that are not there. -/
def recognizerWith (p : Program) (uncompiled : String → Recognizer) (missing : Recognizer) : Nat → ParserId → Recognizer
  | 0, _ => fun _ _ _ t => (.exhausted, t)
  | fuel + 1, id => fun rule c input t =>
      match p.parsers[id]? with
      | none => missing rule c input t
      | some parser =>
          parser.operator.recognizerWith uncompiled (recognizerWith p uncompiled missing fuel) parser.label
            (parser.label.getD rule) c input t.attempt

/-- A run is the one in which a slot without a body fails and a parser that is not there has no end. -/
theorem recognizerWith_self (p : Program) (depth : Nat) :
    p.recognizerWith (fun name rule c input t =>
      (.failed (.mk rule (.uncompiled name) input.start c.generation []), t)) .endless depth = p.recognizer depth := by
  induction depth with
  | zero => rfl
  | succ depth ih =>
    funext id rule c input t
    simp only [recognizerWith, recognizer, ih]
    cases p.parsers[id]? with
    | none => rfl
    | some parser =>
      obtain ⟨label, operator⟩ := parser
      cases operator <;> rfl

variable {g : Grammar} {p : Program}

/-- A run of a program never comes to a slot that waits for its body or to a parser that is not there, whatever would
happen then. -/
theorem recognizerWith_ofGrammar (made : ofGrammar g = .ok p) (uncompiled : String → Recognizer) (missing : Recognizer)
    (depth : Nat) {id : ParserId} (inside : id < p.parsers.size) :
    p.recognizerWith uncompiled missing depth id = p.recognizer depth id := by
  induction depth generalizing id with
  | zero => rfl
  | succ depth ih =>
    have here := Array.getElem?_eq_getElem inside
    have parts : ∀ part ∈ p.parsers[id].operator.parts, p.recognizerWith uncompiled missing depth part
        = p.recognizer depth part :=
      fun part member => ih ((inOrder_ofGrammar made).part_lt here member)
    funext rule c input t
    simp only [recognizerWith, recognizer, here]
    rw [Operator.recognizerWith_of_settled (settled_ofGrammar made here), Operator.recognizer_congr parts]

/-- **Programs are closed.**  Whatever the compiler makes of a grammar whose tables have each name once, (1) no parser
refers to one that is not there, and the table of rules leads to slots; (2) the slots are those of the rules of the
grammar one by one, local ones included, and each calls a body that was made of the term of its own rule; (3) no parser
waits for a body, and a run never comes to one that does or to one that is not there, whatever would happen then; and
(4) a parser that is no slot refers only to slots and to parsers before it. -/
theorem closed_ofGrammar (made : ofGrammar g = .ok p) (distinct : DistinctNames g.features) :
    ((∀ parser ∈ p.parsers, ∀ part ∈ parser.operator.parts, part < p.parsers.size) ∧
      ∀ entry ∈ p.rules.entries, entry.2 < p.parsers.size ∧ (entry.2, entry.1) ∈ p.slots) ∧
    List.Forall₂ (Serves p.draft (Term.backrefNamesTable g)) p.slots g.placedRules ∧
    ((∀ parser ∈ p.parsers, ∀ name, parser.operator ≠ .pending name) ∧
      ∀ uncompiled missing depth id, id < p.parsers.size →
        p.recognizerWith uncompiled missing depth id = p.recognizer depth id) ∧
    ∀ (id : ParserId) (parser : Parser), p.parsers[id]? = some parser → (∀ name, (id, name) ∉ p.slots) →
      ∀ part ∈ parser.operator.parts, (∃ name, (part, name) ∈ p.slots) ∨ part < id := by
  have ordered := inOrder_ofGrammar made
  obtain ⟨serve, listed⟩ := slots_ofGrammar made distinct
  refine ⟨⟨fun parser member part => ?_, fun entry member => ?_⟩, serve, ⟨fun parser member => ?_,
    fun uncompiled missing depth id => recognizerWith_ofGrammar made uncompiled missing depth⟩, ?_⟩
  · obtain ⟨id, here⟩ := Array.getElem?_of_mem member
    exact ordered.part_lt here
  · exact ⟨ordered.slots ⟨_, listed entry member⟩, listed entry member⟩
  · obtain ⟨id, here⟩ := Array.getElem?_of_mem member
    exact settled_ofGrammar made here
  · intro id ⟨label, operator⟩ here plain part member
    cases ordered.stands here with
    | slot isSlot _ => exact absurd isSlot (not_exists.mpr plain)
    | call _ target => exact .inl (List.mem_singleton.mp member ▸ target)
    | inner _ _ parts => exact .inr (parts part member).1

/-- Phrases with words of their own: both rules of that name have slots, and each slot serves its own rule. -/
theorem closed_ofGrammar_phrases : ∃ p, ofGrammar Parsers.phrases = .ok p ∧ DistinctNames Parsers.phrases.features ∧
    Parsers.phrases.placedRules.map (fun rule => (rule.name, rule.env.length))
      = [("phrase", 1), ("word", 1), ("word", 2)] ∧
    List.Forall₂ (Serves p.draft ["mark"]) p.slots Parsers.phrases.placedRules ∧
    ∀ uncompiled missing depth id, id < p.parsers.size →
      p.recognizerWith uncompiled missing depth id = p.recognizer depth id := by
  have checked : (ofGrammar Parsers.phrases).isOk = true := by decide +kernel
  have distinct : DistinctNames Parsers.phrases.features := by
    have all : Parsers.phrases.features.all (fun feature => decide feature.names.Nodup) = true := by decide +kernel
    exact fun names member => of_decide_eq_true (List.all_eq_true.mp all _ member)
  cases made : ofGrammar Parsers.phrases with
  | error e =>
    rw [made] at checked
    cases checked
  | ok p =>
    obtain ⟨-, serve, ⟨-, runs⟩, -⟩ := closed_ofGrammar made distinct
    exact ⟨p, rfl, distinct, by decide +kernel, serve, runs⟩

end Program
end GrammarKit
