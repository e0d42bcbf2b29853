/-
Module: GrammarKit.Proofs.TokenGrammars
Purpose: Grammars in which every terminal needs a character and every separator of a list is a terminal.  Both can
  be read off the grammar; the compiler keeps them, so no list of the program hides a circle from validation, and
  whatever is parsed, the parse comes to an end.
Main exports: Term.tokenized, Grammar.tokenized, Program.tokenized_ofGrammar, Parsers.parsePartial_ne_endless
-/
import GrammarKit.Proofs.TakingPatterns
import GrammarKit.Proofs.Termination

namespace GrammarKit

open Relation (ReflTransGen)

/-! ### Grammars -/

/-- A terminal that takes input, unless it is known to match without. -/
def Terminal.Takes (t : Terminal) : Prop :=
  t.nullable = false → ∀ ⦃s m⦄, t.regex.match? s = some m → m.rest ≠ s

namespace Term

/-- Whether a terminal is known to match without input, or else has a pattern that needs a character. -/
def consumes (padding : Option Padding) (t : Term) : Bool :=
  t == .literal "" ||
    match Regex.Pattern.read (terminalPattern t padding).toList with
    | .ok pattern => pattern.takes
    | .error _ => true

/-- Whether a term is a terminal, which may be captured. -/
def isToken : Term → Bool
  | literal _ => true
  | regex _ => true
  | capture _ t => t.isToken
  | _ => false

mutual
/-- Whether all terminals in a term take input, where a given padding is in force, and all separators are
terminals. -/
def tokenized (padding : Option Padding) : Term → Bool
  | rule _ => true
  | literal text => consumes padding (.literal text)
  | regex pattern => consumes padding (.regex pattern)
  | seq ts => tokenizedAll padding ts
  | choice ts => tokenizedAll padding ts
  | stack _ => true
  | list element separator _ => separator.isToken && tokenized padding element && tokenized padding separator
  | quant t _ _ => tokenized padding t
  | capture _ t => tokenized padding t
  | backref _ default => tokenizedDefault default
  | cut t => tokenized padding t
  | withRules t rules =>
      match Padding.ofGrammar rules padding with
      | .ok padding => tokenized padding t && tokenizedTable padding rules
      | .error _ => true

/-- The same of several terms. -/
def tokenizedAll (padding : Option Padding) : List Term → Bool
  | [] => true
  | t :: ts => tokenized padding t && tokenizedAll padding ts

/-- The same of a default, in which there is no padding. -/
def tokenizedDefault : Option Term → Bool
  | none => true
  | some t => tokenized none t

/-- The same of the rules of a table. -/
def tokenizedTable (padding : Option Padding) : Table Term → Bool
  | ⟨entries⟩ => tokenizedEntries padding entries

/-- The same of the rules among some entries. -/
def tokenizedEntries (padding : Option Padding) : List (String × Term) → Bool
  | [] => true
  | (name, t) :: entries => (name == paddingRule || tokenized padding t) && tokenizedEntries padding entries
end

end Term

/-- Whether all terminals of a grammar take input and all separators are terminals. -/
def Grammar.tokenized (g : Grammar) : Bool :=
  match Padding.ofGrammar g none with
  | .ok padding => Term.tokenizedTable padding g
  | .error _ => true

/-- A terminal that was made has a pattern that can be read, and the machine of it. -/
theorem terminal_eq_ok {t : Term} {padding : Option Padding} {made : Terminal} (h : terminal t padding = .ok made) :
    ∃ pattern machine, Regex.Pattern.read (terminalPattern t padding).toList = .ok pattern ∧
      Regex.Machine.ofPattern? pattern = some machine ∧ made = ⟨⟨machine⟩, t.spell, t == .literal ""⟩ := by
  simp only [terminal] at h
  split at h
  · next regex compiled =>
    obtain rfl := Except.ok.inj h
    obtain ⟨pattern, read, compiled⟩ := Except.bind_eq_ok compiled
    split at compiled
    · next machine built =>
      obtain rfl := Except.ok.inj compiled
      exact ⟨pattern, machine, read, built, rfl⟩
    · cases compiled
  · cases h

theorem terminal_takes {t : Term} {padding : Option Padding} (consumes : t.consumes padding = true) {made : Terminal}
    (h : terminal t padding = .ok made) : made.Takes := by
  obtain ⟨pattern, machine, read, built, rfl⟩ := terminal_eq_ok h
  intro needed s m matched
  have needed : (t == Term.literal "") = false := needed
  rw [Term.consumes, read, Bool.or_eq_true] at consumes
  apply Regex.rest_ne_of_takes built _ matched
  exact consumes.resolve_left (ne_true_of_eq_false needed)

namespace Program

/-! ### Drafts -/

/-- There is a terminal at a place of a draft. -/
def Draft.IsTerminal (d : Draft) (id : ParserId) : Prop :=
  ∃ label t, d.parsers[id]? = some ⟨label, .terminal t⟩

/-- An operator that takes input, should it be a terminal, or whose separator is a terminal, should it be a list. -/
def Draft.Suits (d : Draft) : Operator → Prop
  | .terminal t => t.Takes
  | .list _ separator _ _ => d.IsTerminal separator
  | _ => True

/-- A draft in which all terminals take input and all separators are terminals, whereas what names lead to is
none. -/
structure Draft.Tokenized (names : Names) (d : Draft) : Prop where
  suits : ∀ ⦃id : ParserId⦄ ⦃label operator⦄, d.parsers[id]? = some ⟨label, operator⟩ → d.Suits operator
  slots : ∀ entry ∈ names, entry.2 < d.parsers.size ∧ ¬ d.IsTerminal entry.2

/-- Where all terminals stay, an operator stays as good as it was. -/
theorem Draft.Suits.mono {d later : Draft} {operator : Operator} (h : d.Suits operator)
    (terminals : ∀ {id}, d.IsTerminal id → later.IsTerminal id) : later.Suits operator := by
  cases operator with
  | list element separator style cutSeparator => exact terminals h
  | _ => exact h

namespace Draft.Tokenized

variable {d : Draft} {names : Names}

theorem mono {more : Names} (h : d.Tokenized more) (subset : names ⊆ more) : d.Tokenized names :=
  ⟨h.suits, fun entry member => h.slots entry (subset member)⟩

theorem isTerminal_push {label : Option String} {operator : Operator} {id : ParserId} :
    (d.push label operator).2.IsTerminal id ↔
      d.IsTerminal id ∨ (id = d.parsers.size ∧ ∃ t, operator = .terminal t) := by
  simp only [IsTerminal, push, Array.getElem?_push]
  split
  · next here =>
    subst here
    simp
  · next other => simp [other]

theorem push (h : d.Tokenized names) (operator : Operator) (suits : d.Suits operator) (label : Option String) :
    (d.push label operator).2.Tokenized names := by
  constructor
  · intro id label' operator' found
    simp only [Draft.push, Array.getElem?_push] at found
    refine Suits.mono (d := d) ?_ fun token => isTerminal_push.mpr (.inl token)
    split at found
    · cases found
      exact suits
    · exact h.suits found
  · intro entry member
    obtain ⟨inside, plain⟩ := h.slots entry member
    refine ⟨Nat.lt_trans inside (d.lt_size_push _ _), fun token => ?_⟩
    rcases isTerminal_push.mp token with before | ⟨here, -⟩
    · exact plain before
    · exact Nat.lt_irrefl _ (here ▸ inside)

/-- The slots that rules get are no terminals. -/
theorem register (h : d.Tokenized names) {entries : List (String × Term)} {names' : Names} {later : Draft}
    (registered : d.register names entries = (names', later)) : later.Tokenized names' ∧ names ⊆ names' := by
  induction entries generalizing d names with
  | nil =>
    cases registered
    exact ⟨h, List.Subset.refl _⟩
  | cons entry entries ih =>
    rw [Draft.register] at registered
    split at registered
    · exact ih h registered
    · have pushed : (d.push none (.pending entry.1)).2.Tokenized names :=
        h.push (.pending entry.1) trivial none
      have added : Draft.Tokenized ((entry.1, d.parsers.size) :: names)
          ⟨(d.push none (.pending entry.1)).2.parsers, d.slots ++ [(d.parsers.size, entry.1)]⟩ := by
        refine ⟨pushed.suits, fun slot member => ?_⟩
        rcases List.mem_cons.mp member with rfl | member
        · refine ⟨d.lt_size_push _ _, ?_⟩
          rintro ⟨label, t, found⟩
          rw [show _ = _ from d.getElem?_push none (.pending entry.1)] at found
          cases found
        · exact pushed.slots slot member
      obtain ⟨after, subset⟩ := ih added registered
      exact ⟨after, List.Subset.trans (List.subset_cons_self _ _) subset⟩

/-- Setting what a name leads to touches no terminal. -/
theorem patch (h : d.Tokenized names) {name : String} {slot : ParserId} (member : (name, slot) ∈ names)
    (body : ParserId) : (d.patch slot body).Tokenized names := by
  have plain := (h.slots _ member).2
  have other : ∀ {id : ParserId} {label operator}, (d.patch slot body).parsers[id]? = some ⟨label, operator⟩ →
      operator = .call body ∨ d.parsers[id]? = some ⟨label, operator⟩ := by
    intro id label operator found
    simp only [Draft.patch, Array.getElem?_modify] at found
    split at found
    · obtain ⟨before, -, same⟩ := Option.map_eq_some_iff.mp found
      cases same
      exact .inl rfl
    · exact .inr found
  have terminal : ∀ {id : ParserId}, d.IsTerminal id → (d.patch slot body).IsTerminal id := by
    rintro id ⟨label, t, found⟩
    have ne : slot ≠ id := by
      rintro rfl
      exact plain ⟨label, t, found⟩
    refine ⟨label, t, ?_⟩
    simp only [Draft.patch, Array.getElem?_modify, if_neg ne, found]
  constructor
  · intro id label operator found
    rcases other found with rfl | before
    · trivial
    · exact (h.suits before).mono terminal
  · intro entry member
    obtain ⟨inside, plain⟩ := h.slots entry member
    refine ⟨by simpa [Draft.patch] using inside, ?_⟩
    rintro ⟨label, t, found⟩
    rcases other found with call | before
    · cases call
    · exact plain ⟨label, t, before⟩

end Draft.Tokenized

/-- The parser of a terminal is one. -/
theorem build_isTerminal : ∀ {t : Term} {s d label id later}, build s d label t = .ok (id, later) →
    t.isToken = true → later.IsTerminal id
  | .literal _, _, _, _, _, _, h, _ => by
    obtain ⟨made, -, h⟩ := Except.bind_eq_ok h
    cases h
    exact ⟨_, _, Draft.getElem?_push _ _ _⟩
  | .regex _, _, _, _, _, _, h, _ => by
    obtain ⟨made, -, h⟩ := Except.bind_eq_ok h
    cases h
    exact ⟨_, _, Draft.getElem?_push _ _ _⟩
  | .capture _ t, _, _, _, _, _, h, token => build_isTerminal (t := t) h token

mutual
/-- Compiling a term in which all terminals take input and all separators are terminals adds nothing else. -/
theorem build_tokenized : ∀ {s d label t id later}, build s d label t = .ok (id, later) →
    t.tokenized s.padding = true → d.Tokenized s.names → later.Tokenized s.names
  | _, _, _, .capture _ t, _, _, h, tokenized, before => build_tokenized (t := t) h tokenized before
  | s, d, _, .withRules t ⟨entries⟩, _, _, h, tokenized, before => by
    obtain ⟨padding, padded, h⟩ := Except.bind_eq_ok h
    generalize registered : d.register s.names entries = made at h
    obtain ⟨names, d₁⟩ := made
    obtain ⟨d₂, filled, h⟩ := Except.bind_eq_ok h
    rw [Term.tokenized, padded, Bool.and_eq_true] at tokenized
    obtain ⟨opened, subset⟩ := before.register registered
    have table : d₂.Tokenized names := buildEntries_tokenized filled tokenized.2 opened
    exact (build_tokenized h tokenized.1 table).mono subset
  | _, _, _, .cut t, _, _, h, tokenized, before => by
    obtain ⟨⟨inner, d'⟩, body, h⟩ := Except.bind_eq_ok h
    cases h
    exact (build_tokenized (t := t) body tokenized before).push (.cut inner) trivial _
  | _, _, _, .rule _, _, _, h, _, before => by
    simp only [build] at h
    split at h
    · cases h
      exact before.push (.call _) trivial _
    · cases h
  | _, _, _, .literal _, _, _, h, tokenized, before => by
    obtain ⟨made, compiled, h⟩ := Except.bind_eq_ok h
    cases h
    exact before.push (.terminal made) (terminal_takes tokenized compiled) _
  | _, _, _, .regex _, _, _, h, tokenized, before => by
    obtain ⟨made, compiled, h⟩ := Except.bind_eq_ok h
    cases h
    exact before.push (.terminal made) (terminal_takes tokenized compiled) _
  | _, _, _, .seq ts, _, _, h, tokenized, before => by
    obtain ⟨⟨items, d'⟩, parts, h⟩ := Except.bind_eq_ok h
    cases h
    exact (buildItems_tokenized parts tokenized before).push (.seq items) trivial _
  | _, _, _, .choice ts, _, _, h, tokenized, before => by
    obtain ⟨⟨ids, d'⟩, parts, h⟩ := Except.bind_eq_ok h
    cases h
    exact (@buildAll_tokenized _ _ ts _ _ parts tokenized before).push (.choice ids) trivial _
  | _, _, _, .list element separator style, _, _, h, tokenized, before => by
    obtain ⟨⟨elementId, d₁⟩, first, h⟩ := Except.bind_eq_ok h
    obtain ⟨⟨separatorId, d₂⟩, second, h⟩ := Except.bind_eq_ok h
    cases h
    simp only [Term.tokenized, Bool.and_eq_true] at tokenized
    obtain ⟨⟨token, tokenized⟩, tokenized'⟩ := tokenized
    have after := build_tokenized second tokenized' (build_tokenized first tokenized before)
    exact after.push (.list elementId separatorId style separator.isCut) (build_isTerminal second token) _
  | _, _, _, .quant t min max, _, _, h, tokenized, before => by
    obtain ⟨⟨inner, d'⟩, body, h⟩ := Except.bind_eq_ok h
    cases h
    exact (build_tokenized (t := t) body tokenized before).push (.quant inner min max) trivial _
  | _, _, _, .backref name none, _, _, h, _, before => by
    cases h
    exact before.push (.backref name none) trivial _
  | s, d, _, .backref name (some t), _, _, h, tokenized, before => by
    obtain ⟨⟨made, d'⟩, body, h⟩ := Except.bind_eq_ok h
    obtain ⟨⟨id, d''⟩, here, same⟩ := Except.bind_eq_ok body
    cases same
    cases h
    have inside := @build_tokenized { s with padding := none } d none t id _ here tokenized before
    exact inside.push (.backref name (some id)) trivial _
  | _, _, _, .stack _, _, _, h, _, _ => by cases h

theorem buildItems_tokenized : ∀ {s d ts items later}, buildItems s d ts = .ok (items, later) →
    Term.tokenizedAll s.padding ts = true → d.Tokenized s.names → later.Tokenized s.names
  | _, _, [], _, _, h, _, before => by
    cases h
    exact before
  | _, _, t :: ts, _, _, h, tokenized, before => by
    obtain ⟨first, others⟩ := (Bool.and_eq_true _ _).mp tokenized
    obtain ⟨⟨id, d₁⟩, here, h⟩ := Except.bind_eq_ok h
    obtain ⟨⟨items, d₂⟩, rest, h⟩ := Except.bind_eq_ok h
    cases h
    exact buildItems_tokenized rest others (build_tokenized here first before)

theorem buildAll_tokenized : ∀ {s d ts ids later}, buildAll s d ts = .ok (ids, later) →
    Term.tokenizedAll s.padding ts = true → d.Tokenized s.names → later.Tokenized s.names
  | _, _, [], _, _, h, _, before => by
    cases h
    exact before
  | _, _, t :: ts, _, _, h, tokenized, before => by
    obtain ⟨first, others⟩ := (Bool.and_eq_true _ _).mp tokenized
    obtain ⟨⟨id, d₁⟩, here, h⟩ := Except.bind_eq_ok h
    obtain ⟨⟨ids, d₂⟩, rest, h⟩ := Except.bind_eq_ok h
    cases h
    exact buildAll_tokenized rest others (build_tokenized here first before)

theorem buildEntries_tokenized : ∀ {s d entries later}, buildEntries s d entries = .ok later →
    Term.tokenizedEntries s.padding entries = true → d.Tokenized s.names → later.Tokenized s.names
  | _, _, [], _, h, _, before => by
    cases h
    exact before
  | s, _, (name, t) :: entries, _, h, tokenized, before => by
    obtain ⟨here, others⟩ := (Bool.and_eq_true _ _).mp tokenized
    rw [buildEntries] at h
    split at h
    · exact buildEntries_tokenized h others before
    · next rule =>
      have own : t.tokenized s.padding = true := ((Bool.or_eq_true _ _).mp here).resolve_left (by simpa using rule)
      obtain ⟨⟨body, d'⟩, made, h⟩ := Except.bind_eq_ok h
      have after := build_tokenized made own before
      refine buildEntries_tokenized h others ?_
      split
      · next slot found => exact after.patch (Table.mem_of_lookup found) body
      · exact after
end

/-! ### Programs -/

/-- In the program of such a grammar terminals take input, and no list hides a circle: a separator runs no other
parser. -/
theorem tokenized_ofGrammar {g : Grammar} {p : Program} (h : ofGrammar g = .ok p) (tokenized : g.tokenized = true) :
    p.Progress ∧ p.NoHiddenCircle := by
  obtain ⟨entries⟩ := g
  obtain ⟨padding, padded, h⟩ := Except.bind_eq_ok h
  generalize registered : Draft.register ⟨#[], []⟩ [] entries = made at h
  obtain ⟨names, d⟩ := made
  obtain ⟨later, filled, h⟩ := Except.bind_eq_ok h
  rw [Grammar.tokenized, padded] at tokenized
  have empty : Draft.Tokenized [] ⟨#[], []⟩ := ⟨nofun, nofun⟩
  obtain ⟨opened, -⟩ := empty.register registered
  have after : later.Tokenized names := buildEntries_tokenized filled tokenized opened
  split at h
  · cases h
  · obtain rfl := Except.ok.inj h
    refine ⟨fun id label t found => after.suits found, ?_⟩
    intro id part hidden back
    obtain ⟨operator, here, member⟩ := hidden
    obtain ⟨⟨label, operator⟩, found, rfl⟩ := exists_operator here
    cases operator with
    | list element separator style cutSeparator =>
      simp only [Operator.hiddenHeads] at member
      split at member
      · obtain rfl := List.mem_singleton.mp member
        obtain ⟨label', t, terminal⟩ := after.suits found
        rcases ReflTransGen.cases_head back with rfl | ⟨next, ⟨operator, there, leads⟩, -⟩
        · cases found.symm.trans terminal
        · obtain ⟨parser, found', rfl⟩ := exists_operator there
          obtain rfl := Option.some.inj (found'.symm.trans terminal)
          cases leads
      · cases member
    | _ => cases member

end Program

namespace Parsers

variable {g : Grammar} {options : CompileOptions} {p : Parsers}

/-- Every parse by such a grammar comes to an end, once the grammar has passed validation. -/
theorem parsePartial_ne_endless (compiled : g.compile options = .ok p) (validated : options.validate = true)
    (tokenized : p.flat.tokenized = true) (rule : String) (input : Slice) :
    p.parsePartial rule input ≠ .error .endless := by
  obtain ⟨source, -, -, made, checks⟩ := Grammar.compile_ok compiled
  obtain ⟨progress, guarded⟩ := Program.tokenized_ofGrammar made tokenized
  have ordered := Program.inOrder_ofGrammar made
  obtain ⟨height, ranked⟩ :=
    Program.exists_height ordered ((Program.acyclic_iff (checks validated).2 ordered).mpr guarded)
  simp only [parsePartial, runPartial]
  split
  · rintro ⟨⟩
  · next slot found =>
    have inside := ordered.slots (ordered.rules found)
    have depth := Program.depthFor_lt_fuelFor ranked inside input
    have nothing : Program.Admits height [] slot input := fun _ member => absurd member List.not_mem_nil
    obtain ⟨same, ends⟩ := Program.recognizer_settled progress ordered ranked inside nothing depth depth rule {} {}
    rw [same] at ends
    exact ofOutcome_ne_endless ends

end Parsers
end GrammarKit
