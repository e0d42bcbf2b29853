/-
Module: GrammarKit.Proofs.CompilationCorrect
Purpose: Compilation preserves meaning.  The slot of each rule of a grammar gives what evaluating the name of the
  rule where it is defined gives: the same trees, the same failures in the same generations, and the same rest of
  the input.  Bindings that no back reference asks for make no difference.
Main exports: Program.Fits, Program.agrees_built, Program.slot_evaluates, Program.evaluates_ofGrammar
-/
import GrammarKit.Proofs.CutErasure
import GrammarKit.Proofs.Evaluation
import GrammarKit.Proofs.Layout
import GrammarKit.Proofs.Replies

namespace GrammarKit

theorem Term.backrefNames_subset {name : String} {t : Term} {entries : List (String × Term)}
    (found : Table.lookup name entries = some t) : t.backrefNames ⊆ backrefNamesEntries entries := by
  induction entries with
  | nil => cases found
  | cons entry entries ih =>
    obtain ⟨other, t'⟩ := entry
    rw [Table.lookup] at found
    split at found
    · obtain rfl := Option.some.inj found
      exact List.subset_append_left _ _
    · exact List.subset_append_of_subset_right _ (ih found)

namespace Program

/-! ### Surroundings and environments -/

/-- Surroundings that stand for an environment: every grammar of it has been opened in what is around it, with the
bodies of its rules in place, and back references in it refer to names of a list. -/
inductive Fits (d : Draft) (backrefs : List String) : Surroundings → Environment → Prop
  | outside : Fits d backrefs ⟨backrefs, [], none⟩ []
  | rules {outer env g s} : Fits d backrefs outer env → Opens d outer g s → BuiltTable d s g →
      Term.backrefNamesTable g ⊆ backrefs → Fits d backrefs s (.rules g :: env)
  | default {s env} : Fits d backrefs s env → Fits d backrefs { s with padding := none } (.default :: env)

namespace Fits

variable {d : Draft} {backrefs : List String} {s : Surroundings} {env : Environment} {name : String}

theorem backrefs_eq (h : Fits d backrefs s env) : s.backrefs = backrefs := by
  induction h with
  | outside => rfl
  | rules _ opens _ _ ih => exact opens.backrefs.trans ih
  | default _ ih => exact ih

theorem padding_eq (h : Fits d backrefs s env) : env.padding = .ok s.padding := by
  induction h with
  | outside => rfl
  | default _ ih => rfl
  | @rules outer env g s _ opens _ _ ih =>
    have padded := opens.padding
    simp only [Environment.padding]
    cases own : g.get? paddingRule with
    | some t =>
      simp only [Padding.ofGrammar, own] at padded
      simpa only [Padding.ofGrammar, own, Option.isSome_some, if_true] using padded
    | none =>
      simp only [Padding.ofGrammar, own] at padded
      obtain same := Except.ok.inj padded
      simpa only [Option.isSome_none, Bool.false_eq_true, if_false, same] using ih

/-- The padding rule is no rule that a name can mean. -/
theorem ne_paddingRule {slot : ParserId} (h : Fits d backrefs s env)
    (found : Table.lookup name s.names = some slot) : name ≠ paddingRule := by
  induction h with
  | outside => cases found
  | default _ ih => exact ih found
  | rules _ opens _ _ ih =>
    obtain ⟨locals, names, order, -⟩ := opens.names
    rw [names, Table.lookup_append] at found
    rcases Option.or_eq_some_iff.mp found with here | ⟨-, further⟩
    · have member := Table.lookup_isSome.mp (Option.isSome_of_eq_some here)
      rw [order, List.mem_reverse, List.mem_filter] at member
      simpa using member.2
    · exact ih further

/-- What a name means in some surroundings and in the environment that they stand for: a slot whose body was made of
the term of the rule, in surroundings that stand for the environment of that term. -/
structure Meaning (d : Draft) (backrefs : List String) (env : Environment) (name : String) (slot : ParserId)
    (t : Term) (s : Surroundings) (inner : Environment) (body : ParserId) : Prop where
  found : env.find? name = some (t, inner)
  listed : (slot, name) ∈ d.slots
  calls : d.parsers[slot]? = some ⟨none, .call body⟩
  built : BuiltAt d s (some name) t body
  refers : t.backrefNames ⊆ backrefs
  fits : Fits d backrefs s inner

/-- A slot is that of the rule that its name means. -/
theorem meaning {slot : ParserId} (h : Fits d backrefs s env) (found : Table.lookup name s.names = some slot) :
    ∃ t outer inner body, Meaning d backrefs env name slot t outer inner body := by
  have rule := h.ne_paddingRule found
  induction h with
  | outside => cases found
  | default _ ih =>
    obtain ⟨t, outer, inner, body, m⟩ := ih found
    exact ⟨t, outer, inner, body, m.found, m.listed, m.calls, m.built, m.refers, m.fits⟩
  | @rules outer env g s further opens built refers ih =>
    obtain ⟨locals, names, order, slots⟩ := opens.names
    have inLocals : name ∈ locals.map (·.1) ↔ name ∈ g.names := by
      rw [order, List.mem_reverse, List.mem_filter]
      simp [rule]
    have whole := found
    rw [names, Table.lookup_append] at found
    rcases Option.or_eq_some_iff.mp found with here | ⟨absent, beyond⟩
    · have member := inLocals.mp (Table.lookup_isSome.mp (Option.isSome_of_eq_some here))
      obtain ⟨entries⟩ := g
      obtain ⟨t, slot', body, value, found', set, body'⟩ := mem_of_builtEntries built member rule
      obtain rfl := Option.some.inj (whole.symm.trans found')
      have found'' := value
      have value : Table.get? ⟨entries⟩ name = some t := value
      refine ⟨t, s, _, body, ?_, slots _ (Table.mem_of_lookup here), set, body', fun _ inside => ?_,
        .rules further opens built refers⟩
      · simp only [Environment.find?, value]
      · exact refers (Term.backrefNames_subset found'' inside)
    · have value : g.get? name = none := by
        rw [← Option.not_isSome_iff_eq_none, Table.get?, Table.lookup_isSome]
        intro member
        have present := Table.lookup_isSome.mpr (inLocals.mpr member)
        rw [absent] at present
        cases present
      obtain ⟨t, outer', inner, body, m⟩ := ih beyond
      refine ⟨t, outer', inner, body, ?_, m.listed, m.calls, m.built, m.refers, m.fits⟩
      simp only [Environment.find?, value, m.found]

/-- A rule that a name means has a slot. -/
theorem slot_of_find? (h : Fits d backrefs s env) (rule : name ≠ paddingRule)
    (found : (env.find? name).isSome) : ∃ slot, Table.lookup name s.names = some slot := by
  induction h with
  | outside => cases found
  | default _ ih => exact ih found
  | @rules outer env g s further opens built refers ih =>
    obtain ⟨locals, names, order, -⟩ := opens.names
    by_cases member : name ∈ g.names
    · have here : name ∈ locals.map (·.1) := by
        rw [order, List.mem_reverse, List.mem_filter]
        exact ⟨member, by simpa using rule⟩
      obtain ⟨slot, found⟩ := Option.isSome_iff_exists.mp (Table.lookup_isSome.mpr here)
      exact ⟨slot, by rw [names, Table.lookup_append, found, Option.some_or]⟩
    · have absent : name ∉ locals.map (·.1) := by
        rw [order, List.mem_reverse, List.mem_filter]
        exact fun inside => member inside.1
      have value : g.get? name = none := by
        rw [← Option.not_isSome_iff_eq_none, Table.get?, Table.lookup_isSome]
        exact member
      have nothing : Table.lookup name locals = none := by
        rw [← Option.not_isSome_iff_eq_none, Table.lookup_isSome]
        exact absent
      simp only [Environment.find?, value] at found
      obtain ⟨slot, found⟩ := ih found
      exact ⟨slot, by rw [names, Table.lookup_append, nothing, Option.none_or, found]⟩

end Fits

/-! ### Terms -/

section Terms

variable {p : Program} {backrefs : List String} {side : Side} {depth : Nat}
  {call : Environment → Option String → Term → Recognizer}

/-- What the parser of a term needs to agree with the term: that the parsers of its parts and the slots of the rules
in it do. -/
structure Parts (p : Program) (backrefs : List String) (side : Side) (depth : Nat)
    (call : Environment → Option String → Term → Recognizer) (whole : ParserId) : Prop where
  terms : ∀ {s env label t id}, id < whole → BuiltAt p.draft s label t id → Fits p.draft backrefs s env →
    t.backrefNames ⊆ backrefs →
    Recognizer.Agrees side backrefs (p.recognizer depth id) (Term.recognizer call env label t)
  slots : ∀ {env name slot t s inner body}, Fits.Meaning p.draft backrefs env name slot t s inner body →
    Recognizer.Agrees side backrefs (p.recognizer depth slot) (call inner (some name) t)

section Parts

variable {whole : ParserId} (h : Parts p backrefs side depth call whole) {s : Surroundings} {env : Environment}
  (fits : Fits p.draft backrefs s env)
include h fits

theorem Parts.items : ∀ {ts : List Term} {items : List Item}, BuiltItems p.draft s whole ts items →
    Term.backrefNamesAll ts ⊆ backrefs → List.Forall₂ (Recognizer.Step.Agrees side backrefs)
      (items.map fun item => ⟨item.bind, item.cut, p.recognizer depth item.parser⟩) (Term.steps call env ts)
  | [], [], _, _ => .nil
  | t :: ts, item :: items, ⟨below, bind, cut, here, others⟩, refers => by
    obtain ⟨first, rest⟩ := List.append_subset.mp refers
    refine .cons ⟨?_, cut, h.terms below here fits first⟩ (Parts.items others rest)
    intro name member
    show item.bind = some name ↔ t.bindingName? = some name
    -- the filter lets just the names of back references through
    rw [bind, bindName, fits.backrefs_eq, Option.filter_eq_some_iff]
    exact ⟨fun both => both.1, fun same => ⟨same, List.contains_iff_mem.mpr member⟩⟩

theorem Parts.all : ∀ {ts : List Term} {ids : List ParserId}, BuiltAll p.draft s whole ts ids →
    Term.backrefNamesAll ts ⊆ backrefs → List.Forall₂ (Recognizer.Agrees side backrefs)
      (ids.map (p.recognizer depth)) (Term.recognizers call env ts)
  | [], [], _, _ => .nil
  | _ :: _, _ :: _, ⟨below, here, others⟩, refers => by
    obtain ⟨first, rest⟩ := List.append_subset.mp refers
    exact .cons (h.terms below here fits first) (Parts.all others rest)

theorem Parts.default : ∀ {default : Option Term} {made : Option ParserId},
    BuiltDefault p.draft s whole default made → Term.backrefNamesDefault default ⊆ backrefs →
    Option.Rel (Recognizer.Agrees side backrefs) (made.map (p.recognizer depth))
      (Term.recognizerDefault call env default)
  | none, none, _, _ => .none
  | some _, some _, ⟨below, here⟩, refers => .some (h.terms below here fits refers)

end Parts

/-- Running a parser is running its operator, with one attempt more. -/
theorem agrees_of_operator {names : List String} {id : ParserId} {label : Option String} {operator : Operator}
    (here : p.parsers[id]? = some ⟨label, operator⟩) {run : Recognizer}
    (agrees : Recognizer.Agrees side names (operator.recognizer (p.recognizer depth) label) run) :
    Recognizer.Agrees side names (p.recognizer (depth + 1) id) fun caller => run (label.getD caller) := by
  intro caller c c' s t t' like same
  simp only [recognizer, here]
  exact agrees like same

theorem terminal_agrees {names : List String} {s : Surroundings} {env : Environment}
    (fits : Fits p.draft backrefs s env) {t : Term} {made : Terminal} (compiled : terminal t s.padding = .ok made)
    (label : Option String) :
    Recognizer.Agrees side names ((Operator.terminal made).recognizer (p.recognizer depth) label)
      (Term.terminalRecognizer env t) := by
  rw [Term.terminalRecognizer, fits.padding_eq]
  simp only [Except.bind, compiled]
  exact Recognizer.terminal_agrees _ _

/-- The parser of a term agrees with the term if the parsers of its parts and the slots of the rules in it do. -/
theorem agrees_built : ∀ {s env label t id}, Parts p backrefs side depth call id → BuiltAt p.draft s label t id →
    Fits p.draft backrefs s env → t.backrefNames ⊆ backrefs →
    Recognizer.Agrees side backrefs (p.recognizer (depth + 1) id) (Term.recognizer call env label t)
  | _, _, _, .capture _ t, _, parts, built, fits, refers => agrees_built (t := t) parts built fits refers
  | _, _, _, .withRules t rules, _, parts, ⟨_, opens, table, body⟩, fits, refers => by
    obtain ⟨first, others⟩ := List.append_subset.mp refers
    exact agrees_built (t := t) parts body (.rules fits opens table others) first
  | _, _, _, .cut t, _, parts, ⟨_, below, here, built⟩, fits, refers => by
    have agrees := agrees_of_operator here (parts.terms (t := t) below built fits refers)
    simp only [Term.recognizer_getD] at agrees
    exact agrees
  | _, env, label, .rule name, _, parts, ⟨slot, found, here⟩, fits, _ => by
    obtain ⟨t, outer, inner, body, m⟩ := fits.meaning found
    have agrees := agrees_of_operator here (parts.slots m)
    simp only [Term.recognizer, m.found]
    exact agrees
  | _, _, _, .literal _, _, _, ⟨_, compiled, here⟩, fits, _ =>
      agrees_of_operator here (terminal_agrees fits compiled _)
  | _, _, _, .regex _, _, _, ⟨_, compiled, here⟩, fits, _ =>
      agrees_of_operator here (terminal_agrees fits compiled _)
  | _, _, label, .seq _, _, parts, ⟨_, here, built⟩, fits, refers =>
      agrees_of_operator here (Recognizer.sequence_agrees label (parts.items fits built refers))
  | _, _, label, .choice _, _, parts, ⟨_, here, built⟩, fits, refers =>
      agrees_of_operator here (Recognizer.choice_agrees label (parts.all fits built refers))
  | _, env, label, .list element separator style, _, parts,
      ⟨elementId, below, separatorId, below', here, built, built'⟩, fits, refers => by
    obtain ⟨first, second⟩ := List.append_subset.mp refers
    have agrees : Recognizer.ListParts.Agrees side backrefs
        ⟨p.recognizer depth elementId, p.recognizer depth separatorId, style, separator.isCut⟩
        ⟨Term.recognizer call env none element, Term.recognizer call env none separator, style, separator.isCut⟩ :=
      ⟨parts.terms below built fits first, parts.terms below' built' fits second, rfl, rfl⟩
    exact agrees_of_operator here (Recognizer.list_agrees agrees label)
  | _, _, label, .quant t min max, _, parts, ⟨_, below, here, built⟩, fits, refers =>
      agrees_of_operator here
        (Recognizer.repetition_agrees label (parts.terms below built fits refers) min max)
  | _, _, _, .backref name default, _, parts, ⟨_, here, built⟩, fits, refers => by
    obtain ⟨member, inside⟩ := List.cons_subset.mp refers
    exact agrees_of_operator here (Recognizer.backref_agrees member (parts.default fits.default built inside))

/-! ### Depths -/

/-- A recursion of the program that is no deeper than that of the evaluation gives nothing else. -/
theorem agrees_deeper {depth deeper : Nat} (le : depth ≤ deeper) {s : Surroundings} {env : Environment}
    {label : Option String} {t : Term} {id : ParserId} (built : BuiltAt p.draft s label t id)
    (fits : Fits p.draft backrefs s env) (refers : t.backrefNames ⊆ backrefs) :
    Recognizer.Agrees .left backrefs (p.recognizer depth id)
      (Term.recognizer (Term.evaluate deeper) env label t) := by
  induction depth using Nat.strongRecOn generalizing deeper s env label t id with
  | _ depth ih =>
    cases depth with
    | zero => exact fun _ _ _ _ _ _ _ _ => .left
    | succ depth =>
      refine agrees_built ⟨?_, ?_⟩ built fits refers
      · intro s env label t id _ built fits refers
        exact ih depth (Nat.lt_succ_self _) (Nat.le_of_succ_le le) built fits refers
      · intro env name slot t s inner body m
        cases depth with
        | zero => exact fun _ _ _ _ _ _ _ _ => .left
        | succ depth =>
          obtain ⟨deeper, rfl⟩ := Nat.exists_eq_succ_of_ne_zero (Nat.ne_zero_of_lt le)
          have le : depth ≤ deeper := by omega
          have body := ih depth (Nat.lt_of_succ_lt (Nat.lt_succ_self _)) le m.built m.fits m.refers
          exact agrees_of_operator m.calls body

/-- A depth at which the program has gone through all parsers between two rules, as often as an evaluation of the
given depth goes from one rule to another. -/
def enough (p : Program) (depth : Nat) (id : ParserId) : Nat :=
  depth * (p.parsers.size + 2) + id + 1

/-- A recursion of the program that is deep enough gives nothing else than the evaluation. -/
theorem agrees_enough {depth deeper : Nat} {id : ParserId} (le : p.enough depth id ≤ deeper) {s : Surroundings}
    {env : Environment} {label : Option String} {t : Term} (built : BuiltAt p.draft s label t id)
    (fits : Fits p.draft backrefs s env) (refers : t.backrefNames ⊆ backrefs) :
    Recognizer.Agrees .right backrefs (p.recognizer deeper id)
      (Term.recognizer (Term.evaluate depth) env label t) := by
  induction deeper using Nat.strongRecOn generalizing depth s env label t id with
  | _ deeper ih =>
    rw [enough] at le
    obtain ⟨deeper, rfl⟩ := Nat.exists_eq_succ_of_ne_zero (Nat.ne_zero_of_lt le)
    refine agrees_built ⟨?_, ?_⟩ built fits refers
    · intro s env label t part below built fits refers
      have le : p.enough depth part ≤ deeper :=
        Nat.le_of_lt_succ (Nat.lt_of_lt_of_le (Nat.succ_lt_succ (Nat.add_lt_add_left below _)) le)
      exact ih deeper (Nat.lt_succ_self _) le built fits refers
    · intro env name slot t s inner body m
      cases depth with
      | zero => exact fun _ _ _ _ _ _ _ _ => .right
      | succ depth =>
        rw [Nat.succ_mul] at le
        obtain ⟨deeper, rfl⟩ : ∃ further, deeper = further + 1 := ⟨deeper - 1, by omega⟩
        have within : depth * (p.parsers.size + 2) + p.parsers.size ≤ deeper := by omega
        have le : p.enough depth body ≤ deeper :=
          Nat.le_trans (Nat.add_lt_add_left m.built.lt_size _) within
        exact agrees_of_operator m.calls (ih deeper (by omega) le m.built m.fits m.refers)

end Terms

/-! ### The places of rules -/

section Places

variable {d : Draft} {backrefs : List String}

mutual
/-- The environments inside a term that has been built have surroundings that stand for them. -/
theorem fits_places : ∀ {s env label t id}, BuiltAt d s label t id → Fits d backrefs s env →
    t.backrefNames ⊆ backrefs → ∀ place ∈ t.places env, ∃ inner, Fits d backrefs inner place
  | _, _, _, .capture _ t, _, built, fits, refers => fits_places (t := t) built fits refers
  | _, _, _, .withRules t rules, _, ⟨_, opens, table, body⟩, fits, refers => by
    intro place member
    obtain ⟨first, others⟩ := List.append_subset.mp refers
    have inside := fits.rules opens table others
    rcases List.mem_cons.mp member with rfl | member
    · exact ⟨_, inside⟩
    · rcases List.mem_append.mp member with member | member
      · exact fits_placesTable table inside others place member
      · exact fits_places body inside first place member
  | _, _, _, .cut t, _, ⟨_, _, _, built⟩, fits, refers => fits_places (t := t) built fits refers
  | _, _, _, .rule _, _, _, _, _ => nofun
  | _, _, _, .literal _, _, _, _, _ => nofun
  | _, _, _, .regex _, _, _, _, _ => nofun
  | _, _, _, .seq _, _, ⟨_, _, built⟩, fits, refers => fits_placesItems built fits refers
  | _, _, _, .choice _, _, ⟨_, _, built⟩, fits, refers => fits_placesAll built fits refers
  | _, _, _, .list _ _ _, _, ⟨_, _, _, _, _, built, built'⟩, fits, refers => by
    intro place member
    obtain ⟨first, second⟩ := List.append_subset.mp refers
    rcases List.mem_append.mp member with member | member
    · exact fits_places built fits first place member
    · exact fits_places built' fits second place member
  | _, _, _, .quant t _ _, _, ⟨_, _, _, built⟩, fits, refers => fits_places (t := t) built fits refers
  | _, _, _, .backref _ none, _, _, _, _ => nofun
  | _, _, _, .backref _ (some t), _, ⟨some _, _, _, built⟩, fits, refers =>
      fits_places (t := t) built fits.default (List.cons_subset.mp refers).2

theorem fits_placesItems : ∀ {s env whole ts items}, BuiltItems d s whole ts items → Fits d backrefs s env →
    Term.backrefNamesAll ts ⊆ backrefs → ∀ place ∈ Term.placesAll env ts, ∃ inner, Fits d backrefs inner place
  | _, _, _, [], [], _, _, _ => nofun
  | _, _, _, _ :: _, _ :: _, ⟨_, _, _, built, others⟩, fits, refers => by
    intro place member
    obtain ⟨first, rest⟩ := List.append_subset.mp refers
    rcases List.mem_append.mp member with member | member
    · exact fits_places built fits first place member
    · exact fits_placesItems others fits rest place member

theorem fits_placesAll : ∀ {s env whole ts ids}, BuiltAll d s whole ts ids → Fits d backrefs s env →
    Term.backrefNamesAll ts ⊆ backrefs → ∀ place ∈ Term.placesAll env ts, ∃ inner, Fits d backrefs inner place
  | _, _, _, [], [], _, _, _ => nofun
  | _, _, _, _ :: _, _ :: _, ⟨_, built, others⟩, fits, refers => by
    intro place member
    obtain ⟨first, rest⟩ := List.append_subset.mp refers
    rcases List.mem_append.mp member with member | member
    · exact fits_places built fits first place member
    · exact fits_placesAll others fits rest place member

theorem fits_placesTable : ∀ {s env rules}, BuiltTable d s rules → Fits d backrefs s env →
    Term.backrefNamesTable rules ⊆ backrefs →
      ∀ place ∈ Term.placesTable env rules, ∃ inner, Fits d backrefs inner place
  | _, _, ⟨_⟩, built, fits, refers => fits_placesEntries built fits refers

theorem fits_placesEntries : ∀ {s env entries}, BuiltEntries d s entries → Fits d backrefs s env →
    Term.backrefNamesEntries entries ⊆ backrefs →
    ∀ place ∈ Term.placesEntries env entries, ∃ inner, Fits d backrefs inner place
  | _, _, [], _, _, _ => nofun
  | _, _, (name, _) :: _, ⟨here, others⟩, fits, refers => by
    intro place member
    obtain ⟨first, rest⟩ := List.append_subset.mp refers
    rcases List.mem_append.mp member with member | member
    · split at member
      · cases member
      · next rule =>
        obtain ⟨_, _, _, _, built⟩ := here rule
        exact fits_places built fits first place member
    · exact fits_placesEntries others fits rest place member
end

end Places

end Program

/-! ### What deeper and deeper recursions come to -/

/-- What recognizers for deeper and deeper recursions come to: an outcome, and how many generations have been opened
by then. -/
def Recognizer.ComesTo (runs : Nat → Recognizer) (caller : String) (c : Context) (s : Slice) (t : Tally)
    (outcome : Outcome (Tree × Slice)) (generations : Nat) : Prop :=
  outcome ≠ .exhausted ∧ ∃ depth, ∀ deeper, depth ≤ deeper →
    (runs deeper caller c s t).1 = outcome ∧ (runs deeper caller c s t).2.generations = generations

/-- Recognizers come to one outcome only. -/
theorem Recognizer.ComesTo.unique {runs : Nat → Recognizer} {caller : String} {c : Context} {s : Slice} {t : Tally}
    {outcome outcome' : Outcome (Tree × Slice)} {generations generations' : Nat}
    (h : ComesTo runs caller c s t outcome generations) (h' : ComesTo runs caller c s t outcome' generations') :
    outcome = outcome' ∧ generations = generations' := by
  obtain ⟨-, depth, h⟩ := h
  obtain ⟨-, depth', h'⟩ := h'
  obtain ⟨first, count⟩ := h (max depth depth') (Nat.le_max_left _ _)
  obtain ⟨first', count'⟩ := h' (max depth depth') (Nat.le_max_right _ _)
  exact ⟨first.symm.trans first', count.symm.trans count'⟩

namespace Program

/-- The slot of a rule comes to what evaluating the name of the rule comes to. -/
def Evaluates (p : Program) (slot : ParserId) (env : Environment) (name : String) : Prop :=
  ∀ caller c s t outcome generations,
    Recognizer.ComesTo (fun depth => p.recognizer depth slot) caller c s t outcome generations ↔
      Recognizer.ComesTo (fun depth => Term.evaluate depth env none (.rule name)) caller c s t outcome generations

namespace Fits.Meaning

variable {p : Program} {backrefs : List String} {env inner : Environment} {name : String} {slot body : ParserId}
  {t : Term} {s : Surroundings} (m : Fits.Meaning p.draft backrefs env name slot t s inner body)
include m

/-- Evaluating the name of a rule is evaluating its term where it is defined. -/
theorem evaluate_rule (depth : Nat) :
    Term.evaluate (depth + 2) env none (.rule name) = Term.recognizer (Term.evaluate depth) inner (some name) t := by
  funext caller
  simp only [Term.evaluate, Term.recognizer, m.found, Option.getD_none]

theorem agrees_deeper {depth deeper : Nat} (le : depth + 2 ≤ deeper) :
    Recognizer.Agrees .left backrefs (p.recognizer depth slot) (Term.evaluate deeper env none (.rule name)) := by
  obtain ⟨deeper, rfl⟩ := Nat.exists_eq_add_of_le' le
  cases depth with
  | zero => exact fun _ _ _ _ _ _ _ _ => .left
  | succ depth =>
    have within : depth ≤ deeper + (depth + 1) := by omega
    have body := Program.agrees_deeper within m.built m.fits m.refers
    rw [← Nat.add_assoc, m.evaluate_rule]
    exact agrees_of_operator m.calls body

theorem agrees_enough {depth deeper : Nat} (le : p.enough depth p.parsers.size ≤ deeper) :
    Recognizer.Agrees .right backrefs (p.recognizer deeper slot) (Term.evaluate depth env none (.rule name)) := by
  match depth with
  | 0 => exact fun _ _ _ _ _ _ _ _ => .right
  | 1 =>
    intro caller c c' s t t' _ _
    simp only [Term.evaluate, Term.recognizer, m.found]
    exact .right
  | depth + 2 =>
    rw [enough, Nat.add_mul] at le
    obtain ⟨deeper, rfl⟩ := Nat.exists_eq_succ_of_ne_zero (Nat.ne_zero_of_lt le)
    have within : depth * (p.parsers.size + 2) + p.parsers.size ≤ deeper := by omega
    have body := Program.agrees_enough (Nat.le_trans (Nat.add_lt_add_left m.built.lt_size _) within) m.built m.fits
      m.refers
    rw [m.evaluate_rule]
    exact agrees_of_operator m.calls body

/-- A run of the slot that ends shows what the evaluation comes to. -/
theorem comesTo {depth : Nat} {caller : String} {c : Context} {input : Slice} {t : Tally}
    (ends : (p.recognizer depth slot caller c input t).1 ≠ .exhausted) :
    Recognizer.ComesTo (fun depth => Term.evaluate depth env none (.rule name)) caller c input t
      (p.recognizer depth slot caller c input t).1 (p.recognizer depth slot caller c input t).2.generations := by
  refine ⟨ends, depth + 2, ?_⟩
  intro deeper le
  exact (m.agrees_deeper le (.refl _ c) rfl).eq_of_left ends

theorem evaluates : p.Evaluates slot env name := by
  intro caller c input t outcome generations
  constructor
  · rintro ⟨ends, depth, reached⟩
    obtain ⟨rfl, rfl⟩ := reached depth (Nat.le_refl _)
    exact m.comesTo ends
  · rintro ⟨ends, depth, reached⟩
    obtain ⟨rfl, rfl⟩ := reached depth (Nat.le_refl _)
    refine ⟨ends, p.enough depth p.parsers.size, ?_⟩
    intro deeper le
    exact (m.agrees_enough le (.refl _ c) rfl).eq_of_right ends

end Fits.Meaning
end Program

/-! ### Whole grammars -/

namespace Parsers

variable {g : Grammar} {p : Parsers}

/-- **Compilation preserves meaning.**  The slot of each rule of a grammar without stacks, local ones included, comes
to the same outcome as the evaluation of the name of the rule where it is defined, with the same tree and rest of the
input, or the same failure in the same generation.  A parse gives what the evaluation comes to, and comes to no end if
the evaluation does not. -/
theorem compile_evaluates (flat : Term.isFlatTable g = true) (compiled : g.compile ⟨false, false⟩ = .ok p) :
    (∀ env ∈ g.places, ∀ name, name ≠ paddingRule → (env.find? name).isSome = true →
        ∃ slot, (slot, name) ∈ p.program.slots ∧ p.program.Evaluates slot env name) ∧
      ∀ name slot, p.program.rules.get? name = some slot →
        p.program.Evaluates slot [.rules g] name ∧
          ∀ input,
            (∀ outcome generations, Recognizer.ComesTo
              (fun depth => Term.evaluate depth [.rules g] none (.rule name)) name {} input {} outcome generations →
                p.parsePartial name input = ofOutcome outcome) ∧
            ((∀ outcome generations, ¬Recognizer.ComesTo
              (fun depth => Term.evaluate depth [.rules g] none (.rule name)) name {} input {} outcome generations) →
                p.parsePartial name input = .error .endless) := by
  obtain ⟨same, made⟩ := compile_of_flat flat compiled
  have distinct := same ▸ distinctNames compiled
  obtain ⟨s, opens, built, -, starts⟩ := Program.opens_ofGrammar made distinct
  have outermost : Program.Fits p.program.draft (Term.backrefNamesTable g) s [.rules g] :=
    .rules .outside opens built (List.Subset.refl _)
  refine ⟨?_, ?_⟩
  · intro env place name rule found
    obtain ⟨s', fits⟩ : ∃ s', Program.Fits p.program.draft (Term.backrefNamesTable g) s' env := by
      rcases List.mem_cons.mp place with rfl | inside
      · exact ⟨s, outermost⟩
      · exact Program.fits_placesTable built outermost (List.Subset.refl _) env inside
    obtain ⟨slot, here⟩ := fits.slot_of_find? rule found
    obtain ⟨t, outer, inner, body, m⟩ := fits.meaning here
    exact ⟨slot, m.listed, m.evaluates⟩
  · intro name slot found
    obtain ⟨t, outer, inner, body, m⟩ := outermost.meaning ((starts name).symm.trans found)
    refine ⟨m.evaluates, ?_⟩
    intro input
    have result : p.parsePartial name input
        = ofOutcome (p.program.recognizer (p.program.fuelFor input) slot name {} input {}).1 := by
      simp only [parsePartial, runPartial, found, Program.start]
    constructor
    · intro outcome generations comes
      have ends : (p.program.recognizer (p.program.fuelFor input) slot name {} input {}).1 ≠ .exhausted := by
        intro exhausted
        have endless := result.trans (congrArg ofOutcome exhausted)
        obtain ⟨ends, depth, reached⟩ := (m.evaluates _ _ _ _ _ _).mpr comes
        obtain ⟨rfl, -⟩ := reached depth (Nat.le_refl _)
        exact ends ((endless_iff found input).mp endless depth)
      rw [result, ((m.comesTo ends).unique comes).1]
    · intro never
      by_contra ends
      have ends : (p.program.recognizer (p.program.fuelFor input) slot name {} input {}).1 ≠ .exhausted :=
        fun exhausted => ends (result.trans (congrArg ofOutcome exhausted))
      exact never _ _ (m.comesTo ends)

/-- The words of a phrase. -/
def phraseWords : Grammar :=
  ⟨[("word", .regex "[a-z]+")]⟩

/-- Phrases with words of their own, which hide the numbers of the same name outside. -/
def phrases : Grammar :=
  ⟨[(".wrapRE", .regex " *()"),
    ("phrase", .withRules (.seq [.rule "word", .backref "mark" (some (.literal "."))]) phraseWords),
    ("word", .regex "[0-9]+")]⟩

theorem compile_evaluates_phrases : ∃ p slot inner, phrases.compile ⟨false, false⟩ = .ok p ∧
    p.program.rules.get? "phrase" = some slot ∧ p.program.Evaluates slot [.rules phrases] "phrase" ∧
    (inner, "word") ∈ p.program.slots ∧ p.program.Evaluates inner [.rules phraseWords, .rules phrases] "word" ∧
    ∃ found, p.parsePartial "phrase" (.ofText " ab.") = .ok found := by
  have checked : (phrases.compile ⟨false, false⟩).toOption.any (fun p =>
      (p.program.rules.get? "phrase").isSome && (p.parsePartial "phrase" (.ofText " ab.")).isOk) = true := by
    decide +kernel
  cases compiled : phrases.compile ⟨false, false⟩ with
  | error e =>
    rw [compiled] at checked
    cases checked
  | ok p =>
    simp only [compiled, Except.toOption, Option.any_some, Bool.and_eq_true] at checked
    obtain ⟨listed, parsed⟩ := checked
    obtain ⟨slot, found⟩ := Option.isSome_iff_exists.mp listed
    obtain ⟨places, starts⟩ := compile_evaluates (by decide +kernel) compiled
    obtain ⟨inner, member, evaluates⟩ := places [.rules phraseWords, .rules phrases]
      (List.mem_cons_of_mem _ List.mem_cons_self) "word" (by decide) rfl
    obtain ⟨result, matched⟩ : ∃ result, p.parsePartial "phrase" (.ofText " ab.") = .ok result := by
      cases here : p.parsePartial "phrase" (.ofText " ab.") with
      | error e =>
        rw [here] at parsed
        cases parsed
      | ok result => exact ⟨result, rfl⟩
    exact ⟨p, slot, inner, rfl, found, (starts "phrase" slot found).1, member, evaluates, result, matched⟩

end Parsers
end GrammarKit
