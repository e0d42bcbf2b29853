/-
Module: GrammarKit.Proofs.UnparseRoundTrip
Purpose: Writing out a parse tree gives back the text that was parsed.  This needs terminals that put out
  all that they match: no padding is skipped around them, and no group inside a pattern narrows them down.
Main exports: Regex.Groupless, Parsers.unparse_parse
-/
import GrammarKit.Proofs.LiteralPattern
import GrammarKit.Proofs.LayerNames
import GrammarKit.Proofs.Unparsing

namespace GrammarKit

/-! ### Terminals that put out what they match -/

/-- A pattern without groups: where it is the pattern of a terminal, the group of the terminal is the only
one. -/
def Regex.Groupless (pattern : String) : Prop :=
  ∀ ⦃p⦄, Regex.Pattern.read (terminalPattern (.regex pattern) none).toList = .ok p → p.Bare

instance (pattern : String) : Decidable (Regex.Groupless pattern) :=
  match h : Regex.Pattern.read (terminalPattern (.regex pattern) none).toList with
  | .ok p => decidable_of_iff p.Bare
      ⟨fun bare _ read => Except.ok.inj (h.symm.trans read) ▸ bare, fun groupless => groupless h⟩
  | .error _ => .isTrue fun _ read => nomatch h.symm.trans read

theorem terminal_whole {t : Term} {made : Terminal} (h : terminal t none = .ok made)
    (bare : ∀ ⦃p⦄, Regex.Pattern.read (terminalPattern t none).toList = .ok p → p.Bare) : made.Whole := by
  simp only [terminal] at h
  split at h
  · next regex compiled =>
    obtain rfl := Except.ok.inj h
    obtain ⟨p, read, made⟩ := Except.bind_eq_ok compiled
    split at made
    · next machine found =>
      obtain rfl := Except.ok.inj made
      exact fun _ _ matched => Regex.output_of_bare (bare read) found matched
    · cases made
  · cases h

/-- What a grammar must not contain for its terminals to put out what they match. -/
def Feature.Unpadded : Feature → Prop
  | rules names => paddingRule ∉ names
  | regex pattern => Regex.Groupless pattern
  | _ => True

instance : ∀ f : Feature, Decidable f.Unpadded
  | .rules names => inferInstanceAs (Decidable (paddingRule ∉ names))
  | .regex pattern => inferInstanceAs (Decidable (Regex.Groupless pattern))
  | .quant _ _ => .isTrue trivial
  | .capture _ => .isTrue trivial
  | .backref _ => .isTrue trivial

namespace Program

/-- All terminals made so far put out what they match. -/
def Draft.Whole (d : Draft) : Prop :=
  ∀ ⦃id : ParserId⦄ ⦃label : Option String⦄ ⦃t : Terminal⦄,
    d.parsers[id]? = some ⟨label, .terminal t⟩ → t.Whole

namespace Draft.Whole

variable {d : Draft}

theorem push (h : d.Whole) {label : Option String} {operator : Operator}
    (other : ∀ t, operator ≠ .terminal t) : (d.push label operator).2.Whole := by
  intro id label' t found
  simp only [Draft.push, Array.getElem?_push] at found
  split at found
  · obtain ⟨-, same⟩ := Parser.mk.inj (Option.some.inj found)
    exact absurd same (other t)
  · exact h found

theorem pushTerminal (h : d.Whole) {label : Option String} {made : Terminal} (whole : made.Whole) :
    (d.push label (.terminal made)).2.Whole := by
  intro id label' t found
  simp only [Draft.push, Array.getElem?_push] at found
  split at found
  · obtain ⟨-, same⟩ := Parser.mk.inj (Option.some.inj found)
    exact Operator.terminal.inj same ▸ whole
  · exact h found

theorem register (h : d.Whole) (names : Names) (entries : List (String × Term)) :
    (d.register names entries).2.Whole := by
  induction entries generalizing d names with
  | nil => exact h
  | cons entry entries ih =>
    rw [Draft.register]
    split
    · exact ih h names
    · have pushed : (d.push none (.pending entry.1)).2.Whole := h.push fun _ same => Operator.noConfusion same
      have added : Draft.Whole ⟨(d.push none (.pending entry.1)).2.parsers, d.slots ++ [(d.parsers.size, entry.1)]⟩ :=
        pushed
      exact ih added _

theorem patch (h : d.Whole) (slot body : ParserId) : (d.patch slot body).Whole := by
  intro id label t found
  simp only [Draft.patch, Array.getElem?_modify] at found
  split at found
  · obtain ⟨parser, -, same⟩ := Option.map_eq_some_iff.mp found
    cases same
  · exact h found

end Draft.Whole

theorem padding_of_unpadded {rules : Grammar} {padding : Option Padding} (none : paddingRule ∉ rules.names)
    (h : Padding.ofGrammar rules .none = .ok padding) : padding = .none := by
  have absent : rules.get? paddingRule = .none := by
    rw [← Option.not_isSome_iff_eq_none, Table.get?, Table.lookup_isSome]
    exact none
  rw [Padding.ofGrammar, absent] at h
  exact (Except.ok.inj h).symm

mutual
/-- Compiling a term without padding and groups makes no other terminals. -/
theorem build_whole : ∀ {s d label t id later}, build s d label t = .ok (id, later) → s.padding = none →
    (∀ f ∈ t.features, f.Unpadded) → d.Whole → later.Whole
  | _, _, _, .capture _ t, _, _, h, padding, allowed, whole =>
    build_whole (t := t) h padding (fun f member => allowed f (.tail _ member)) whole
  | s, d, _, .withRules t ⟨entries⟩, _, _, h, padding, allowed, whole => by
    obtain ⟨inner, padded, h⟩ := Except.bind_eq_ok h
    obtain ⟨d', filled, h⟩ := Except.bind_eq_ok h
    have table : ∀ f ∈ Term.featuresTable ⟨entries⟩, f.Unpadded :=
      fun f member => allowed f (List.mem_append_right _ member)
    have free : paddingRule ∉ entries.map (·.1) := table (.rules _) List.mem_cons_self
    rw [padding] at padded
    have unpadded : inner = none := padding_of_unpadded free padded
    have whole' := buildEntries_whole filled unpadded free (fun f member => table f (.tail _ member))
      (whole.register _ _)
    exact build_whole h unpadded (fun f member => allowed f (List.mem_append_left _ member)) whole'
  | _, _, _, .cut t, _, _, h, padding, allowed, whole => by
    obtain ⟨⟨inner, d'⟩, body, h⟩ := Except.bind_eq_ok h
    cases h
    exact (build_whole (t := t) body padding allowed whole).push nofun
  | _, _, _, .rule _, _, _, h, _, _, whole => by
    simp only [build] at h
    split at h
    · cases h
      exact whole.push nofun
    · cases h
  | _, _, _, .literal _, _, _, h, padding, _, whole => by
    obtain ⟨made, terminal, h⟩ := Except.bind_eq_ok h
    cases h
    rw [padding] at terminal
    exact whole.pushTerminal (terminal_whole terminal fun _ => Regex.bare_of_literal)
  | _, _, _, .regex pattern, _, _, h, padding, allowed, whole => by
    obtain ⟨made, terminal, h⟩ := Except.bind_eq_ok h
    cases h
    rw [padding] at terminal
    have groupless : Regex.Groupless pattern := allowed (.regex pattern) List.mem_cons_self
    exact whole.pushTerminal (terminal_whole terminal groupless)
  | _, _, _, .seq ts, _, _, h, padding, allowed, whole => by
    obtain ⟨⟨items, d'⟩, parts, h⟩ := Except.bind_eq_ok h
    cases h
    exact (@buildItems_whole _ _ ts _ _ parts padding allowed whole).push nofun
  | _, _, _, .choice ts, _, _, h, padding, allowed, whole => by
    obtain ⟨⟨items, d'⟩, parts, h⟩ := Except.bind_eq_ok h
    cases h
    exact (@buildAll_whole _ _ ts _ _ parts padding allowed whole).push nofun
  | _, _, _, .list element separator _, _, _, h, padding, allowed, whole => by
    obtain ⟨⟨elementId, d₁⟩, first, h⟩ := Except.bind_eq_ok h
    obtain ⟨⟨separatorId, d₂⟩, second, h⟩ := Except.bind_eq_ok h
    cases h
    have whole' := build_whole (t := element) first padding
      (fun f member => allowed f (List.mem_append_left _ member)) whole
    exact (build_whole (t := separator) second padding
      (fun f member => allowed f (List.mem_append_right _ member)) whole').push nofun
  | _, _, _, .quant t _ _, _, _, h, padding, allowed, whole => by
    obtain ⟨⟨inner, d'⟩, body, h⟩ := Except.bind_eq_ok h
    cases h
    exact (build_whole (t := t) body padding (fun f member => allowed f (.tail _ member)) whole).push nofun
  | _, _, _, .backref _ default, _, _, h, _, allowed, whole => by
    obtain ⟨⟨made, d'⟩, body, h⟩ := Except.bind_eq_ok h
    cases h
    exact (@buildDefault_whole _ _ default _ _ body rfl (fun f member => allowed f (.tail _ member))
      whole).push nofun
  | _, _, _, .stack _, _, _, h, _, _, _ => by cases h

theorem buildItems_whole : ∀ {s d ts items later}, buildItems s d ts = .ok (items, later) →
    s.padding = none → (∀ f ∈ Term.featuresAll ts, f.Unpadded) → d.Whole → later.Whole
  | _, _, [], _, _, h, _, _, whole => by
    cases h
    exact whole
  | _, _, t :: ts, _, _, h, padding, allowed, whole => by
    obtain ⟨⟨id, d₁⟩, here, h⟩ := Except.bind_eq_ok h
    obtain ⟨⟨others, d₂⟩, rest, h⟩ := Except.bind_eq_ok h
    cases h
    have whole' := build_whole (t := t) here padding
      (fun f member => allowed f (List.mem_append_left _ member)) whole
    exact buildItems_whole rest padding (fun f member => allowed f (List.mem_append_right _ member)) whole'

theorem buildAll_whole : ∀ {s d ts ids later}, buildAll s d ts = .ok (ids, later) →
    s.padding = none → (∀ f ∈ Term.featuresAll ts, f.Unpadded) → d.Whole → later.Whole
  | _, _, [], _, _, h, _, _, whole => by
    cases h
    exact whole
  | _, _, t :: ts, _, _, h, padding, allowed, whole => by
    obtain ⟨⟨id, d₁⟩, here, h⟩ := Except.bind_eq_ok h
    obtain ⟨⟨others, d₂⟩, rest, h⟩ := Except.bind_eq_ok h
    cases h
    have whole' := build_whole (t := t) here padding
      (fun f member => allowed f (List.mem_append_left _ member)) whole
    exact buildAll_whole rest padding (fun f member => allowed f (List.mem_append_right _ member)) whole'

theorem buildDefault_whole : ∀ {s d default made later}, buildDefault s d default = .ok (made, later) →
    s.padding = none → (∀ f ∈ Term.featuresDefault default, f.Unpadded) → d.Whole → later.Whole
  | _, _, none, _, _, h, _, _, whole => by
    cases h
    exact whole
  | _, _, some t, _, _, h, padding, allowed, whole => by
    obtain ⟨⟨id, d₁⟩, here, h⟩ := Except.bind_eq_ok h
    cases h
    exact build_whole (t := t) here padding allowed whole

theorem buildEntries_whole : ∀ {s d entries later}, buildEntries s d entries = .ok later →
    s.padding = none → paddingRule ∉ entries.map (·.1) →
    (∀ f ∈ Term.featuresEntries entries, f.Unpadded) → d.Whole → later.Whole
  | _, _, [], _, h, _, _, _, whole => by
    cases h
    exact whole
  | s, _, (name, t) :: entries, _, h, padding, free, allowed, whole => by
    obtain ⟨rule, free⟩ := not_or.mp (mt List.mem_cons.mpr free)
    rw [buildEntries, if_neg (Ne.symm rule)] at h
    rw [Term.featuresEntries, if_neg fun skipped => rule skipped.1.symm] at allowed
    obtain ⟨⟨body, d'⟩, here, h⟩ := Except.bind_eq_ok h
    have whole' := build_whole (t := t) here padding
      (fun f member => allowed f (List.mem_append_left _ member)) whole
    refine buildEntries_whole h padding free (fun f member => allowed f (List.mem_append_right _ member)) ?_
    split
    · exact whole'.patch _ _
    · exact whole'
end

end Program

/-! ### Grammars without padding -/

/-- Without stacks, a grammar does not come to have padding. -/
theorem Feature.FlatOf.unpadded {features : List Feature} (unpadded : ∀ f ∈ features, f.Unpadded) :
    ∀ {f : Feature}, f.FlatOf features → f.Unpadded
  | rules names, ⟨_, original, member, layers⟩ => by
    intro padding
    obtain ⟨base, there, layer, same⟩ := layers paddingRule padding
    by_cases first : layer = 0
    · rw [first, layerName, if_pos rfl] at same
      exact unpadded _ member (same ▸ there)
    · have split := @reverse_layerName base _ first
      rw [← same] at split
      have inside : '@' ∈ paddingRule.toList :=
        List.mem_reverse.mp (split ▸ List.mem_append_right _ List.mem_cons_self)
      exact absurd inside (by decide)
  | regex _, member => unpadded _ member
  | quant _ _, _ => trivial
  | capture _, _ => trivial
  | backref _, _ => trivial

namespace Parsers

variable {g : Grammar} {options : CompileOptions} {p : Parsers}

/-- All terminals of a compiled grammar put out what they match, if it has neither padding nor groups. -/
theorem whole_compile (compiled : g.compile options = .ok p) (unpadded : ∀ f ∈ g.features, f.Unpadded) :
    p.program.Whole := by
  have flat : ∀ f ∈ p.flat.features, f.Unpadded :=
    fun f member => (Grammar.features_compile compiled f member).unpadded unpadded
  obtain ⟨-, -, -, made, -⟩ := Grammar.compile_ok compiled
  generalize p.flat = g' at flat made
  obtain ⟨entries⟩ := g'
  obtain ⟨padding, padded, made⟩ := Except.bind_eq_ok made
  obtain ⟨d, filled, made⟩ := Except.bind_eq_ok made
  have free : paddingRule ∉ entries.map (·.1) := flat (.rules _) List.mem_cons_self
  have none : padding = none := Program.padding_of_unpadded free padded
  have empty : Program.Draft.Whole ⟨#[], []⟩ := nofun
  have whole := Program.buildEntries_whole filled none free (fun f member => flat f (.tail _ member))
    (empty.register _ _)
  split at made
  · cases made
  · rw [← Except.ok.inj made]
    exact whole

/-- **Writing out undoes parsing.**  Let a grammar be compiled with validation, without padding in any scope
and without groups in its patterns.  If a rule matches the start of the input, then the tree is written out
as just the text up to the rest; if it matches all of the input, then as the input. -/
theorem unparse_parse (compiled : g.compile options = .ok p) (validated : options.validate = true)
    (unpadded : ∀ names, Feature.rules names ∈ g.features → paddingRule ∉ names)
    (groupless : ∀ pattern, Feature.regex pattern ∈ g.features → Regex.Groupless pattern) (rule : String)
    (input : Slice) :
    (∀ tree rest, p.parsePartial rule input = .ok (tree, rest) →
      ∃ text, p.unparse rule tree = .ok text ∧ input.chars = text.toList ++ rest.chars ∧
        rest.start = input.start + byteLength text.toList) ∧
      ∀ tree, p.parse rule input = .ok tree → p.unparse rule tree = .ok input.text := by
  have whole : p.program.Whole := by
    refine whole_compile compiled fun f member => ?_
    cases f with
    | rules names => exact unpadded names member
    | regex pattern => exact groupless pattern member
    | _ => trivial
  have written : ∀ {tree rest}, p.parsePartial rule input = .ok (tree, rest) →
      p.unparse rule tree = .ok tree.text ∧ tree.chars ++ rest.chars = input.chars ∧ rest.Follows input := by
    intro tree rest parsed
    obtain ⟨noPadding, body, value, shaped⟩ := shaped_of_parsePartial compiled validated parsed
    obtain ⟨slot, -, d⟩ := derives_of_parsePartial parsed
    refine ⟨?_, d.chars_append whole, d.follows⟩
    rw [unparse, Grammar.unparse, if_neg noPadding, value]
    show (Term.unparseRule _ _ body tree).map String.ofList = _
    rw [(Term.unparseRule_of_shaped _ shaped).2]
    rfl
  constructor
  · intro tree rest parsed
    obtain ⟨text, taken, n, rfl⟩ := written parsed
    have same : tree.chars = input.chars.take n := by
      have both : tree.chars ++ input.chars.drop n = input.chars.take n ++ input.chars.drop n := by
        rw [List.take_append_drop]
        exact taken
      exact List.append_cancel_right both
    refine ⟨tree.text, text, ?_, ?_⟩
    · rw [Tree.text, String.toList_ofList, taken]
    · rw [Tree.text, String.toList_ofList, same]
      rfl
  · intro tree parsed
    obtain ⟨rest, parsed, nothing⟩ := parsePartial_of_parse parsed
    obtain ⟨text, taken, -⟩ := written parsed
    rw [nothing, List.append_nil] at taken
    rw [text, Tree.text, taken]
    rfl

/-- Lists of numbers, which may end with a comma. -/
def numbers : Grammar :=
  ⟨[("number", .regex "[0-9]+"),
    ("numbers", .list (.rule "number") (.literal ",") { trailing := true })]⟩

theorem unparse_parse_numbers : ∃ p tree, numbers.compile {} = .ok p ∧
    p.parse "numbers" (.ofText "1,23,") = .ok tree ∧ p.unparse "numbers" tree = .ok "1,23," := by
  have runs : (numbers.compile {} >>= fun p => p.parse "numbers" (.ofText "1,23,")).isOk = true := by
    decide +kernel
  have allowed : ∀ f ∈ numbers.features, f.Unpadded := by decide +kernel
  cases result : numbers.compile {} >>= fun p => p.parse "numbers" (.ofText "1,23,") with
  | error e =>
    rw [result] at runs
    cases runs
  | ok tree =>
    obtain ⟨p, compiled, parsed⟩ := Except.bind_eq_ok result
    have written := (unparse_parse compiled rfl (fun names => allowed (.rules names))
      (fun pattern => allowed (.regex pattern)) "numbers" (.ofText "1,23,")).2 tree parsed
    exact ⟨p, tree, compiled, parsed, written⟩

end Parsers
end GrammarKit
