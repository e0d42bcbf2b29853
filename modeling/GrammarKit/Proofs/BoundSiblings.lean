/-
Module: GrammarKit.Proofs.BoundSiblings
Purpose: What back references repeat.  An item of a sequence that refers back to a name sees the tree of the nearest
  item before it that binds the name, whatever has been tried in between, and takes the text of that tree from the
  input or fails; its default is left alone.  Taking the text of a tree is taking its leaves one after the other.
Main exports: Slice.splitLeaves?_leaves, Term.sequences, Program.MakesSequence, Term.Nearest,
  Recognizer.find?_of_bound, Parsers.backref_repeats
-/
import GrammarKit.Proofs.Finality
import GrammarKit.Proofs.CompilationCorrect

namespace GrammarKit

/-! ### Texts of trees -/

namespace Slice

/-- What is left of a slice after the texts of some leaves, if it starts with them. -/
def splitLeaves? (s : Slice) : List Slice → Option Slice
  | [] => some s
  | leaf :: leaves =>
      match s.splitLiteral? leaf.chars with
      | some (_, rest) => rest.splitLeaves? leaves
      | none => none

theorem splitLiteral?_eq_none {s : Slice} {literal : List Char} :
    s.splitLiteral? literal = none ↔ ¬ literal <+: s.chars := by
  simp [splitLiteral?]

/-- The texts of leaves are found one after the other if and only if their concatenation is found. -/
theorem splitLeaves?_eq (s : Slice) (leaves : List Slice) :
    s.splitLeaves? leaves = (s.splitLiteral? (leaves.flatMap Slice.chars)).map (·.2) := by
  induction leaves generalizing s with
  | nil => simp [splitLeaves?, splitLiteral?, dropChars_zero]
  | cons leaf leaves ih =>
    rw [splitLeaves?, List.flatMap_cons]
    cases first : s.splitLiteral? leaf.chars with
    | none =>
      have whole : s.splitLiteral? (leaf.chars ++ leaves.flatMap Slice.chars) = none :=
        splitLiteral?_eq_none.mpr fun found =>
          splitLiteral?_eq_none.mp first ((List.prefix_append _ _).trans found)
      rw [whole]
      rfl
    | some parts =>
      obtain ⟨found, rest⟩ := parts
      obtain ⟨-, rfl, split, -⟩ := splitLiteral?_eq_some first
      dsimp only
      rw [ih]
      have same : (leaf.chars ++ leaves.flatMap Slice.chars).isPrefixOf s.chars
          = (leaves.flatMap Slice.chars).isPrefixOf (s.dropChars leaf.chars.length).chars := by
        rw [Bool.eq_iff_iff, List.isPrefixOf_iff_prefix, List.isPrefixOf_iff_prefix, split,
          List.prefix_append_right_inj]
      simp only [splitLiteral?, same]
      split
      · rw [Option.map_some, Option.map_some, dropChars_dropChars, List.length_append]
      · rfl

/-- Taking the leaves of a tree one after the other is taking the text of the tree. -/
theorem splitLeaves?_leaves (s : Slice) (tree : Tree) :
    s.splitLeaves? tree.leaves = (s.splitLiteral? tree.chars).map (·.2) :=
  s.splitLeaves?_eq tree.leaves

end Slice

/-! ### Sequences of a grammar -/

namespace Term

mutual
/-- The sequences in a term, local rules included. -/
def sequences : Term → List (List Term)
  | rule _ => []
  | literal _ => []
  | regex _ => []
  | seq ts => ts :: sequencesAll ts
  | choice ts => sequencesAll ts
  | stack ts => sequencesAll ts
  | list element separator _ => sequences element ++ sequences separator
  | quant t _ _ => sequences t
  | capture _ t => sequences t
  | backref _ default => sequencesDefault default
  | cut t => sequences t
  | withRules t rules => sequences t ++ sequencesTable rules

/-- The sequences in several terms. -/
def sequencesAll : List Term → List (List Term)
  | [] => []
  | t :: ts => sequences t ++ sequencesAll ts

/-- The sequences in a default. -/
def sequencesDefault : Option Term → List (List Term)
  | none => []
  | some t => sequences t

/-- The sequences in the rules of a table. -/
def sequencesTable : Table Term → List (List Term)
  | ⟨entries⟩ => sequencesEntries entries

/-- The sequences in the rules among some entries.  The padding rule is no rule of its own. -/
def sequencesEntries : List (String × Term) → List (List Term)
  | [] => []
  | (name, t) :: entries => (if name = paddingRule then [] else sequences t) ++ sequencesEntries entries
end

theorem mem_backrefNamesAll {name : String} {default : Option Term} :
    ∀ {ts : List Term} {k : Nat}, ts[k]? = some (.backref name default) → name ∈ backrefNamesAll ts
  | _ :: _, 0, found => by
    obtain rfl := Option.some.inj found
    exact List.mem_append_left _ List.mem_cons_self
  | _ :: _, _ + 1, found => List.mem_append_right _ (mem_backrefNamesAll found)

/-- Item number `i` of a sequence is the nearest before item number `j` that binds a name. -/
structure Nearest (ts : List Term) (name : String) (i j : Nat) : Prop where
  before : i < j
  binds : ts[i]?.bind bindingName? = some name
  others : ∀ k, i < k → k < j → ts[k]?.bind bindingName? ≠ some name

end Term

namespace Program

/-- A parser has been made of a sequence, among terms whose back references refer to names of a list. -/
structure MakesSequence (p : Program) (backrefs : List String) (id : ParserId) (label : Option String)
    (ts : List Term) (items : List Item) : Prop where
  here : p.parsers[id]? = some ⟨label, .seq items⟩
  built : ∃ s, s.backrefs = backrefs ∧ BuiltItems p.draft s id ts items
  refers : Term.backrefNamesAll ts ⊆ backrefs

section Sequences

variable {p : Program} {backrefs : List String}

mutual
/-- Every sequence in a term that has been built has a parser. -/
theorem makes_sequences : ∀ {s label t id}, BuiltAt p.draft s label t id → s.backrefs = backrefs →
    t.backrefNames ⊆ backrefs →
    ∀ ts ∈ t.sequences, ∃ id label items, p.MakesSequence backrefs id label ts items
  | _, _, .capture _ t, _, built, names, refers => makes_sequences (t := t) built names refers
  | _, _, .withRules t rules, _, ⟨inner, opens, table, body⟩, names, refers => by
    intro ts member
    obtain ⟨first, others⟩ := List.append_subset.mp refers
    have inside : inner.backrefs = backrefs := opens.backrefs.trans names
    rcases List.mem_append.mp member with member | member
    · exact makes_sequences body inside first ts member
    · exact makes_sequencesTable table inside others ts member
  | _, _, .cut t, _, ⟨_, _, _, built⟩, names, refers => makes_sequences (t := t) built names refers
  | _, _, .rule _, _, _, _, _ => nofun
  | _, _, .literal _, _, _, _, _ => nofun
  | _, _, .regex _, _, _, _, _ => nofun
  | s, label, .seq ts, id, ⟨items, here, built⟩, names, refers => by
    intro ts' member
    rcases List.mem_cons.mp member with rfl | member
    · exact ⟨id, label, items, here, ⟨s, names, built⟩, refers⟩
    · exact makes_sequencesItems built names refers ts' member
  | _, _, .choice _, _, ⟨_, _, built⟩, names, refers => makes_sequencesAll built names refers
  | _, _, .list _ _ _, _, ⟨_, _, _, _, _, built, built'⟩, names, refers => by
    intro ts member
    obtain ⟨first, second⟩ := List.append_subset.mp refers
    rcases List.mem_append.mp member with member | member
    · exact makes_sequences built names first ts member
    · exact makes_sequences built' names second ts member
  | _, _, .quant t _ _, _, ⟨_, _, _, built⟩, names, refers => makes_sequences (t := t) built names refers
  | _, _, .backref _ none, _, _, _, _ => nofun
  | _, _, .backref _ (some t), _, ⟨some _, _, _, built⟩, names, refers =>
      makes_sequences (t := t) built names (List.cons_subset.mp refers).2

theorem makes_sequencesItems : ∀ {s whole ts items}, BuiltItems p.draft s whole ts items →
    s.backrefs = backrefs → Term.backrefNamesAll ts ⊆ backrefs →
    ∀ ts' ∈ Term.sequencesAll ts, ∃ id label items, p.MakesSequence backrefs id label ts' items
  | _, _, [], [], _, _, _ => nofun
  | _, _, _ :: _, _ :: _, ⟨_, _, _, built, others⟩, names, refers => by
    intro ts' member
    obtain ⟨first, rest⟩ := List.append_subset.mp refers
    rcases List.mem_append.mp member with member | member
    · exact makes_sequences built names first ts' member
    · exact makes_sequencesItems others names rest ts' member

theorem makes_sequencesAll : ∀ {s whole ts ids}, BuiltAll p.draft s whole ts ids →
    s.backrefs = backrefs → Term.backrefNamesAll ts ⊆ backrefs →
    ∀ ts' ∈ Term.sequencesAll ts, ∃ id label items, p.MakesSequence backrefs id label ts' items
  | _, _, [], [], _, _, _ => nofun
  | _, _, _ :: _, _ :: _, ⟨_, built, others⟩, names, refers => by
    intro ts' member
    obtain ⟨first, rest⟩ := List.append_subset.mp refers
    rcases List.mem_append.mp member with member | member
    · exact makes_sequences built names first ts' member
    · exact makes_sequencesAll others names rest ts' member

theorem makes_sequencesTable : ∀ {s rules}, BuiltTable p.draft s rules → s.backrefs = backrefs →
    Term.backrefNamesTable rules ⊆ backrefs →
    ∀ ts ∈ Term.sequencesTable rules, ∃ id label items, p.MakesSequence backrefs id label ts items
  | _, ⟨_⟩, built, names, refers => makes_sequencesEntries built names refers

theorem makes_sequencesEntries : ∀ {s entries}, BuiltEntries p.draft s entries → s.backrefs = backrefs →
    Term.backrefNamesEntries entries ⊆ backrefs →
    ∀ ts ∈ Term.sequencesEntries entries, ∃ id label items, p.MakesSequence backrefs id label ts items
  | _, [], _, _, _ => nofun
  | _, (name, _) :: _, ⟨here, others⟩, names, refers => by
    intro ts member
    obtain ⟨first, rest⟩ := List.append_subset.mp refers
    rcases List.mem_append.mp member with member | member
    · split at member
      · cases member
      · next rule =>
        obtain ⟨_, _, _, _, built⟩ := here rule
        exact makes_sequences built names first ts member
    · exact makes_sequencesEntries others names rest ts member
end

end Sequences

/-! ### Items of a sequence -/

/-- Each term of a sequence has its item, in the same place. -/
theorem BuiltItems.getElem? {d : Draft} {s : Surroundings} {whole : ParserId} : ∀ {ts : List Term} {items : List Item},
    BuiltItems d s whole ts items → ∀ {k : Nat} {t : Term}, ts[k]? = some t →
    ∃ item, items[k]? = some item ∧ item.bind = bindName s t ∧ BuiltAt d s none t item.parser
  | [], [], _, _, _, found => by cases found
  | _ :: _, item :: _, ⟨_, bind, _, here, _⟩, 0, _, found => by
    obtain rfl := Option.some.inj found
    exact ⟨item, rfl, bind, here⟩
  | _ :: _, _ :: _, ⟨_, _, _, _, others⟩, _ + 1, _, found => others.getElem? found

/-- Each item of a sequence has its term. -/
theorem BuiltItems.length {d : Draft} {s : Surroundings} {whole : ParserId} : ∀ {ts : List Term} {items : List Item},
    BuiltItems d s whole ts items → items.length = ts.length
  | [], [], _ => rfl
  | _ :: _, _ :: _, ⟨_, _, _, _, others⟩ => congrArg (· + 1) others.length

/-- An item binds a name that back references ask for just where its term does. -/
theorem MakesSequence.bind_iff {p : Program} {backrefs : List String} {id : ParserId} {label : Option String}
    {ts : List Term} {items : List Item} (made : p.MakesSequence backrefs id label ts items) {name : String}
    (asked : name ∈ backrefs) (k : Nat) :
    items[k]?.bind Item.bind = some name ↔ ts[k]?.bind Term.bindingName? = some name := by
  obtain ⟨s, rfl, built⟩ := made.built
  cases found : ts[k]? with
  | none =>
    have short := built.length ▸ List.getElem?_eq_none_iff.mp found
    rw [List.getElem?_eq_none_iff.mpr short]
    simp
  | some t =>
    obtain ⟨item, here, bind, -⟩ := built.getElem? found
    rw [here, Option.bind_some, Option.bind_some, bind, bindName, Option.filter_eq_some_iff]
    exact ⟨fun both => both.1, fun same => ⟨same, List.contains_iff_mem.mpr asked⟩⟩

end Program

/-! ### What an item sees -/

namespace Recognizer

section Tries

variable {self : ParserId → Recognizer} {rule name : String} {items : List Item} {c : Context} {s : Slice} {t : Tally}
  {first second : Attempt}

/-- The attempt of an item runs its parser. -/
theorem SequenceTries.parser_eq {j : Nat} (tried : SequenceTries self rule items j c s t second) :
    ∃ item, items[j]? = some item ∧ second.parser = item.parser := by
  induction tried with
  | here => exact ⟨_, rfl, rfl⟩
  | later _ _ ih => exact ih

/-- An item sees what was bound before the sequence, if no item before it binds the name. -/
theorem SequenceTries.find?_of_unbound {j : Nat} (tried : SequenceTries self rule items j c s t second)
    (others : ∀ k < j, items[k]?.bind Item.bind ≠ some name) : second.context.find? name = c.find? name := by
  induction tried with
  | here => rfl
  | @later item items index c s t tree next t' a ran _ ih =>
    have free : item.bind ≠ some name := others 0 (Nat.succ_pos _)
    rw [ih fun k below => others (k + 1) (Nat.succ_lt_succ below), find?_after, if_neg free]

/-- An item sees the tree of the nearest item before it that binds the name. -/
theorem SequenceTries.find?_of_bound {i j : Nat} (before : SequenceTries self rule items i c s t first) {tree : Tree}
    {next : Slice} {t' : Tally} (ran : first.run self = (.matched (tree, next), t'))
    (tried : SequenceTries self rule items j c s t second) (lt : i < j) (binds : items[i]?.bind Item.bind = some name)
    (others : ∀ k, i < k → k < j → items[k]?.bind Item.bind ≠ some name) :
    second.context.find? name = some tree := by
  induction before generalizing j with
  | @here item items c s t =>
    cases tried with
    | here => exact absurd lt (Nat.lt_irrefl 0)
    | @later _ _ index _ _ _ _ _ _ _ ran' tried =>
      have same := ran.symm.trans ran'
      simp only [Prod.mk.injEq, Outcome.matched.injEq] at same
      obtain ⟨⟨rfl, rfl⟩, rfl⟩ := same
      have bound : item.bind = some name := binds
      rw [tried.find?_of_unbound fun k below => others (k + 1) (Nat.succ_pos k) (Nat.succ_lt_succ below), find?_after,
        if_pos bound]
  | @later item items i c s t tree' next' t'' _ ran' _ ih =>
    cases tried with
    | here => exact absurd lt (Nat.not_lt_zero _)
    | @later _ _ j _ _ _ _ _ _ _ ran'' tried =>
      -- both ways to get to the items behind the first one have run it
      have same := ran'.symm.trans ran''
      simp only [Prod.mk.injEq, Outcome.matched.injEq] at same
      obtain ⟨⟨rfl, rfl⟩, rfl⟩ := same
      exact ih ran tried (Nat.lt_of_succ_lt_succ lt) binds
        fun k above below => others (k + 1) (Nat.succ_lt_succ above) (Nat.succ_lt_succ below)

end Tries

/-- What comes of an attempt that has to repeat a tree.  If the input starts with the text of the tree, this text is
taken as one leaf, up to where its leaves end that are taken one by one; and otherwise the attempt fails. -/
inductive Repeats (name : String) (tree : Tree) (a : Attempt) : Outcome (Tree × Slice) × Tally → Prop
  | matched {found rest t} : found.chars = tree.chars → a.input.chars = tree.chars ++ rest.chars →
      rest.start = a.input.start + byteLength tree.chars → a.input.splitLeaves? tree.leaves = some rest →
      Repeats name tree a (.matched (.leaf found, rest), t)
  | failed {t} : ¬ tree.chars <+: a.input.chars → a.input.splitLeaves? tree.leaves = none →
      Repeats name tree a
        (.failed (.mk name (.backrefNotMatched tree.chars a.input.chars) a.input.start a.context.generation []), t)

/-- A back reference to a name that is bound repeats the tree, whatever its default. -/
theorem backref_of_bound {name : String} {tree : Tree} {a : Attempt} (bound : a.context.find? name = some tree)
    (default : Option Recognizer) (rule : String) (t : Tally) :
    Repeats name tree a (backref name default rule a.context a.input t) := by
  simp only [backref, bound]
  cases split : a.input.splitLiteral? tree.chars with
  | none =>
    refine .failed (Slice.splitLiteral?_eq_none.mp split) ?_
    rw [Slice.splitLeaves?_leaves, split, Option.map_none]
  | some parts =>
    obtain ⟨found, rest⟩ := parts
    obtain ⟨-, dropped, whole, text⟩ := Slice.splitLiteral?_eq_some split
    refine .matched text whole ?_ ?_
    · rw [dropped, Slice.dropChars, whole, List.take_left]
    · rw [Slice.splitLeaves?_leaves, split, Option.map_some]

end Recognizer

namespace Program.MakesSequence

variable {p : Program} {backrefs : List String} {id : ParserId} {label : Option String} {ts : List Term}
  {items : List Item} (made : p.MakesSequence backrefs id label ts items)
include made

/-- The attempt of an item that refers back to a name repeats the tree of the nearest item before it that binds the
name, and tries nothing else. -/
theorem repeats {i j : Nat} {name : String} {default : Option Term} (nearest : Term.Nearest ts name i j)
    (refers : ts[j]? = some (.backref name default)) {depth : Nat} {a first second : Attempt} {tree : Tree}
    {next : Slice} {t : Tally} (before : p.TriesItem depth a label items i first)
    (ran : first.run (p.recognizer depth) = (.matched (tree, next), t))
    (tried : p.TriesItem depth a label items j second) :
    Recognizer.Repeats name tree second (second.run (p.recognizer depth)) ∧
      ∀ depth' inner, ¬ p.Tries depth' second inner := by
  have asked : name ∈ backrefs := made.refers (Term.mem_backrefNamesAll refers)
  have bound : second.context.find? name = some tree :=
    before.2.find?_of_bound ran tried.2 nearest.before ((made.bind_iff asked i).mpr nearest.binds)
      fun k above below same => nearest.others k above below ((made.bind_iff asked k).mp same)
  obtain ⟨s, -, built⟩ := made.built
  obtain ⟨item, here, -, parser, set, -⟩ := built.getElem? refers
  obtain ⟨item', here', same⟩ := tried.2.parser_eq
  obtain rfl := Option.some.inj (here.symm.trans here')
  have set : p.parsers[second.parser]? = some ⟨none, .backref name parser⟩ := same ▸ set
  refine ⟨?_, ?_⟩
  · cases depth with
    | zero => cases ran
    | succ depth =>
      rw [p.run_succ set]
      exact Recognizer.backref_of_bound bound _ second.rule _
  · rintro depth' inner ⟨parser', set', tries⟩
    obtain rfl := Option.some.inj (set.symm.trans set')
    cases tries with
    | default free =>
      rw [bound] at free
      cases free

end Program.MakesSequence

/-- Whether an operator is a sequence. -/
def Operator.isSeq : Operator → Bool
  | seq _ => true
  | _ => false

/-! ### Compiled grammars -/

namespace Parsers

variable {g : Grammar} {options : CompileOptions} {p : Parsers}

/-- **Back references repeat the bound sibling.**  Every sequence of a compiled grammar has its parser, and when such a
parser is run and the nearest item that binds a name before a reference back to it has matched, then the reference
takes the text of that match or fails, and its default is not tried. -/
theorem backref_repeats (compiled : g.compile options = .ok p) :
    (∀ ts ∈ Term.sequencesTable p.flat, ∃ id label items,
        p.program.MakesSequence (Term.backrefNamesTable p.flat) id label ts items) ∧
      ∀ {id label ts items}, p.program.MakesSequence (Term.backrefNamesTable p.flat) id label ts items →
        ∀ {i j name default}, Term.Nearest ts name i j → ts[j]? = some (.backref name default) →
        ∀ {depth a first second tree next t}, p.program.TriesItem depth a label items i first →
          first.run (p.program.recognizer depth) = (.matched (tree, next), t) →
          p.program.TriesItem depth a label items j second →
          Recognizer.Repeats name tree second (second.run (p.program.recognizer depth)) ∧
            ∀ depth' inner, ¬ p.program.Tries depth' second inner := by
  obtain ⟨-, -, -, made, -⟩ := Grammar.compile_ok compiled
  obtain ⟨s, opens, built, -⟩ := Program.opens_ofGrammar made (distinctNames compiled)
  refine ⟨Program.makes_sequencesTable built opens.backrefs (List.Subset.refl _), ?_⟩
  intro id label ts items made i j name default nearest refers depth a first second tree next t before ran tried
  exact made.repeats nearest refers before ran tried

/-- A word, a dash, and the word again.  The cutpoint inside the capture does not hide its name. -/
def echoedWords : Grammar :=
  ⟨[("pair", .seq [.capture "x" (.cut (.regex "[a-z]+")), .literal "-", .backref "x" (some (.literal "!"))])]⟩

theorem backref_repeats_echoedWords : ∃ p, echoedWords.compile {} = .ok p ∧
    ∃ id label ts items, p.program.MakesSequence (Term.backrefNamesTable p.flat) id label ts items ∧
      Term.Nearest ts "x" 0 2 ∧ ∃ a first second tree next t,
        p.program.TriesItem 30 a label items 0 first ∧ p.program.TriesItem 30 a label items 2 second ∧
        first.run (p.program.recognizer 30) = (.matched (tree, next), t) ∧
        Recognizer.Repeats "x" tree second (second.run (p.program.recognizer 30)) := by
  -- the parser of the sequence is the only one of its kind, and its first two items match
  have checked : (echoedWords.compile {}).toOption.any (fun p =>
      decide (Term.sequencesTable p.flat = [[.capture "x" (.cut (.regex "[a-z]+")), .literal "-",
        .backref "x" (some (.literal "!"))]]) &&
      decide (p.program.parsers.toList.filter (fun parser => parser.operator.isSeq)
        = [⟨some "pair", .seq [⟨2, some "x", true⟩, ⟨3, none, false⟩, ⟨5, none, false⟩]⟩]) &&
      match p.program.recognizer 30 2 "pair" ⟨[], some 0⟩ (.ofText "ab-ab") ⟨1, 1, 0⟩ with
      | (.matched (tree, next), t) =>
          match p.program.recognizer 30 3 "pair" ⟨[("x", tree)], some 0⟩ next t with
          | (.matched _, _) => true
          | _ => false
      | _ => false) = true := by
    decide +kernel
  cases compiled : echoedWords.compile {} with
  | error e =>
    rw [compiled] at checked
    cases checked
  | ok p =>
    simp only [compiled, Except.toOption, Option.any_some, Bool.and_eq_true, decide_eq_true_eq] at checked
    obtain ⟨⟨sequences, only⟩, checked⟩ := checked
    obtain ⟨made, repeats⟩ := backref_repeats compiled
    rw [sequences] at made
    obtain ⟨id, label, items, made⟩ := made _ List.mem_cons_self
    obtain ⟨rfl, rfl⟩ : label = some "pair" ∧
        items = [⟨2, some "x", true⟩, ⟨3, none, false⟩, ⟨5, none, false⟩] := by
      have member : (⟨label, .seq items⟩ : Parser) ∈
          p.program.parsers.toList.filter (fun parser => parser.operator.isSeq) :=
        List.mem_filter.mpr ⟨Array.mem_toList_iff.mpr (Array.mem_of_getElem? made.here), rfl⟩
      rw [only] at member
      simpa using List.mem_singleton.mp member
    have nearest : Term.Nearest [.capture "x" (.cut (.regex "[a-z]+")), .literal "-",
        .backref "x" (some (.literal "!"))] "x" 0 2 := by
      refine ⟨by decide, rfl, fun k above below => ?_⟩
      obtain rfl : k = 1 := by omega
      decide
    split at checked
    · next tree next t word =>
      split at checked
      · next found t' dash =>
        obtain ⟨mark, next'⟩ := found
        let a : Attempt := ⟨id, "pair", {}, .ofText "ab-ab", {}⟩
        have first : p.program.TriesItem 30 a (some "pair") _ 0 ⟨2, "pair", ⟨[], some 0⟩, .ofText "ab-ab", ⟨1, 1, 0⟩⟩ :=
          ⟨made.here, .here⟩
        have second : p.program.TriesItem 30 a (some "pair") _ 2 ⟨5, "pair", ⟨[("x", tree)], some 0⟩, next', t'⟩ :=
          ⟨made.here, .later word (.later dash .here)⟩
        exact ⟨p, rfl, id, _, _, _, made, nearest, a, _, _, tree, next, t, first, second, word,
          (repeats made nearest rfl first word second).1⟩
      · cases checked
    · cases checked

/-- A cutpoint around the capture hides its name, and the reference finds nothing. -/
theorem backref_hidden :
    let hidden : Grammar := ⟨[("a", .seq [.cut (.capture "x" (.literal "k")), .backref "x" none])]⟩
    (hidden.compile {}).toOption.any (fun p =>
      match p.parse "a" (.ofText "kk") with
      | .error (.fatal (.mk _ _ _ _ [.mk "x" .backrefNotFound 1 _ []])) => true
      | _ => false) = true := by
  decide +kernel

end Parsers
end GrammarKit
