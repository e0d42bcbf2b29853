/-
Module: GrammarKit.Proofs.MetagrammarReading
Purpose: Reading grammars never breaks off.  The generic tree of a parse by the grammar of grammars has the fields
  that the reader asks for at every layer, in the shape that it asks for; so the reader comes to an end, and what it
  objects to are violations.
Main exports: Metagrammar.Succeeds, Metagrammar.Reads, Metagrammar.reads, Grammar.ofTree_fails, Grammar.read_outcome
-/
import GrammarKit.Proofs.LayerNames
import GrammarKit.Proofs.MetagrammarParsers
import GrammarKit.Proofs.Records
import GrammarKit.Proofs.RequiredFields

namespace GrammarKit
namespace Metagrammar

open Generic Generic.Counters

/-! ### Readings -/

/-- A reading that comes to an end, whatever violations have been noted before. -/
def Succeeds {α : Type} (r : Reading α) : Prop :=
  ∀ violations, ∃ a more, r.run violations = .ok (a, more)

namespace Succeeds

variable {α β : Type}

theorem pure (a : α) : Succeeds (pure a) :=
  fun violations => ⟨a, violations, rfl⟩

theorem bind {r : Reading α} {f : α → Reading β} (h : Succeeds r) (next : ∀ a, Succeeds (f a)) :
    Succeeds (r >>= f) := by
  intro violations
  obtain ⟨a, between, first⟩ := h violations
  obtain ⟨b, more, second⟩ := next a between
  refine ⟨b, more, ?_⟩
  rw [StateT.run_bind, first]
  exact second

theorem mapM {f : α → Reading β} {as : List α} (each : ∀ a ∈ as, Succeeds (f a)) : Succeeds (as.mapM f) := by
  induction as with
  | nil => exact pure []
  | cons a as ih =>
    obtain ⟨here, others⟩ := List.forall_mem_cons.mp each
    rw [List.mapM_cons]
    exact here.bind fun b => (ih others).bind fun bs => pure (b :: bs)

theorem foldlM {f : β → α → Reading β} {as : List α} (each : ∀ b, ∀ a ∈ as, Succeeds (f b a)) (b : β) :
    Succeeds (as.foldlM f b) := by
  induction as generalizing b with
  | nil => exact pure b
  | cons a as ih =>
    rw [List.foldlM_cons]
    exact (each b a List.mem_cons_self).bind
      fun b => ih (fun b a member => each b a (List.mem_cons_of_mem _ member)) b

end Succeeds

theorem succeeds_violate (node : Node) (kind : ViolationKind) (message : String) :
    Succeeds (violate node kind message) :=
  fun _ => ⟨(), _, rfl⟩

theorem succeeds_readLiteral (node : Node) : Succeeds (readLiteral node) := by
  rw [readLiteral]
  split
  · exact .pure _
  · exact (succeeds_violate _ _ _).bind fun _ => .pure _

theorem succeeds_readBound (b : Branch) (name : String) : Succeeds (readBound b name) := by
  rw [readBound]
  split
  · exact .pure _
  · split
    · exact .pure _
    · exact (succeeds_violate _ _ _).bind fun _ => .pure _

theorem succeeds_checkNew (g : Grammar) (name : Node) : Succeeds (checkNew g name) := by
  rw [checkNew]
  split
  · exact succeeds_violate _ _ _
  · exact .pure _

/-! ### Records -/

theorem depth_lt_of_many {b : Branch} {name : String} {node : Node} (member : node ∈ b.many name) :
    node.depth < Branch.depth b := by
  rw [Branch.many] at member
  split at member
  · next nodes present => exact depth_lt_of_value present member
  · cases member

/-- A branch that the body of a rule of the grammar of grammars can give. -/
def Record (body : Term) (b : Branch) : Prop :=
  ∃ n, Recorded n [flat] body b

theorem find?_flat {rule : String} {body : Term} (found : flat.get? rule = some body) :
    Scope.find? rule [flat] = some (body, [flat]) := by
  rw [Scope.find?, found]

/-- A reference to a rule adds a branch of that rule. -/
theorem entry_of_rule {n : Nat} {rule : String} {body : Term} (found : flat.get? rule = some body) {entries : Entries}
    (entered : Enters (Recorded n) [flat] (.rule rule) entries) :
    ∃ child, Record body child ∧ entries = [(baseName rule, .branch child)] := by
  obtain ⟨body', inner, child, means, record, rfl⟩ := entered
  obtain ⟨rfl, rfl⟩ := Prod.mk.inj (Option.some.inj ((find?_flat found).symm.trans means))
  exact ⟨child, ⟨n, record⟩, rfl⟩

/-- A field to which only references to one rule add values holds branches of that rule. -/
theorem Record.branch {t body : Term} {b : Branch} {field rule : String} {node : Node} (record : Record t b)
    (value : b.one? field = some node ∨ node ∈ b.many field) (found : flat.get? rule = some body)
    (noMark : field ∉ [choiceField, countField, listField])
    (only : ∀ part ∈ contributors t, field = fieldOf part → part = .rule rule) :
    ∃ child, node = .branch child ∧ Record body child ∧ Branch.depth child < Branch.depth b := by
  obtain ⟨n, record⟩ := record
  cases n with
  | zero => exact record.elim
  | succ n =>
    obtain ⟨entries, entered, holds⟩ := record
    have member : (field, node) ∈ entries := value.elim holds.mem_of_one holds.mem_of_many
    obtain ⟨body', inner, child, means, record, rfl⟩ := entered.branch_of_rule member noMark only
    obtain ⟨rfl, rfl⟩ := Prod.mk.inj (Option.some.inj ((find?_flat found).symm.trans means))
    exact ⟨child, rfl, ⟨n, record⟩, holds.depth_lt member⟩

/-- A reference in a branch that has room for one value of its field. -/
theorem one_of_rule {n : Nat} {t body : Term} {rule : String} {entries part : Entries} {b : Branch}
    (holds : Holds (ofTerm t) entries b) (found : flat.get? rule = some body)
    (entered : Enters (Recorded n) [flat] (.rule rule) part) (subset : part ⊆ entries) (plain : baseName rule = rule)
    (single : (ofTerm t).isSingle rule = true) :
    ∃ child, b.one? rule = some (.branch child) ∧ Record body child ∧ Branch.depth child < Branch.depth b := by
  obtain ⟨child, record, rfl⟩ := entry_of_rule found entered
  rw [plain] at subset
  have member := subset List.mem_cons_self
  exact ⟨child, holds.one_of_mem single member, record, holds.depth_lt member⟩

/-- A reference among the items of a sequence. -/
theorem Record.item {ts : List Term} {body : Term} {rule : String} {b : Branch} (record : Record (.seq ts) b)
    (member : .rule rule ∈ ts) (found : flat.get? rule = some body) (plain : baseName rule = rule)
    (single : (ofTerm (.seq ts)).isSingle rule = true) :
    ∃ child, b.one? rule = some (.branch child) ∧ Record body child ∧ Branch.depth child < Branch.depth b := by
  obtain ⟨n, record⟩ := record
  cases n with
  | zero => exact record.elim
  | succ n =>
    obtain ⟨entries, entered, holds⟩ := record
    rw [Enters] at entered
    obtain ⟨part, entered, subset⟩ := entered.mem member
    exact one_of_rule holds found entered subset plain single

/-- The branch of a choice holds what one of its alternatives adds, and says which. -/
theorem Record.chosen {ts : List Term} {b : Branch} (record : Record (.choice ts) b) :
    ∃ n index t part entries, ts[index]? = some t ∧ b.choice? = some index ∧ Enters (Recorded n) [flat] t part ∧
      part ⊆ entries ∧ Holds (ofTerm (.choice ts)) entries b := by
  obtain ⟨n, record⟩ := record
  cases n with
  | zero => exact record.elim
  | succ n =>
    obtain ⟨entries, entered, holds⟩ := record
    obtain ⟨index, rest, chosen, rfl⟩ := entered
    obtain ⟨t, found, entered⟩ := chosen.getElem?
    exact ⟨n, index, t, rest, _, found, holds.choice?_eq, entered, List.subset_cons_self _ _, holds⟩

/-! ### Fields -/

/-- The rules of the grammar of grammars that its terms refer to. -/
def ruleNames : List String :=
  ["stmt", "COMMENT", "prod", "IDENT", "term", "grammar", "named", "quant", "atom", "STR", "RE", "REF", "INT"]

theorem baseName_rule {name : String} (member : name ∈ ruleNames) : baseName name = name := by
  have plain : ∀ name ∈ ruleNames, '@' ∉ name.toList := by decide
  exact baseName_of_plain (plain_of_not_mem (plain name member))

/-- Layers inside of a stack keep the name of its rule or have one of their own. -/
theorem baseName_layer_ne (layer : Nat) : baseName (layerName "term" layer) ≠ "grammar" := by
  apply baseName_layerName_ne (plain_of_not_mem (by decide))
  rw [baseName_rule (by decide)]
  decide

/-! Names stand for the rules here, so that nothing has to read a layer off them. -/

theorem free_statements {name : String} (here : baseName name = "stmt") :
    occurrences ruleField (.many1 (.rule name)) = 0 := by
  simp [occurrences, Term.many1, here, ruleField, countField]

theorem single_name {name term : String} (here : baseName name = "IDENT") (other : baseName term = "term") :
    (ofTerm (.seq [.rule name, .literal "->", .many1 (.rule term), .literal ";"])).isSingle "IDENT" = true :=
  isSingle_of_occurrences (by simp [occurrences, occurrencesAll, Term.many1, here, other, countField])
    (by simp [required, requiredAll, Term.many1, here, other])

theorem single_named {name quant : String} (here : baseName name = "named") (other : baseName quant = "quant") :
    (ofTerm (.seq [.rule name, .many (.rule quant)])).isSingle "named" = true :=
  isSingle_of_occurrences (by simp [occurrences, occurrencesAll, Term.many, here, other, countField])
    (by simp [required, requiredAll, Term.many, here, other])

theorem single_atom {name atom : String} (here : baseName atom = "atom") (other : baseName name = "IDENT") :
    (ofTerm (.seq [.optional (.seq [.rule name, .capture "op" (.literal "=")]), .rule atom])).isSingle "atom" = true :=
  isSingle_of_occurrences (by simp [occurrences, occurrencesAll, Term.optional, here, other, countField])
    (by simp [required, requiredAll, Term.optional, here, other])

theorem single_reference {name string : String} (here : baseName name = "IDENT") :
    (ofTerm (.seq [
      .literal "%",
      .rule name,
      .optional (.seq [.literal "=", .capture "default" (.rule string)])])).isSingle "IDENT" = true :=
  isSingle_of_occurrences (by simp [occurrences, occurrencesAll, Term.optional, here, countField])
    (by simp [required, requiredAll, Term.optional, here])

theorem single_alternative {name string regex reference term : String} (isName : baseName name = "IDENT")
    (isString : baseName string = "STR") (isRegex : baseName regex = "RE") (isReference : baseName reference = "REF")
    (isTerm : baseName term = "term") : ∀ field ∈ ["IDENT", "STR", "RE", "REF", "term"],
    (ofTerm (.choice [.rule name, .rule string, .rule regex, .rule reference,
      .seq [.literal "(", .rule term, .literal ")"], .seq [.literal "(", .literal ")"]])).isSingle field = true := by
  intro field member
  simp only [List.mem_cons, List.not_mem_nil, or_false] at member
  refine isSingle_of_occurrences ?_ ?_
  · rcases member with rfl | rfl | rfl | rfl | rfl <;>
      simp [occurrences, occurrencesAll, occurrencesMost, isName, isString, isRegex, isReference, isTerm, choiceField]
  · rcases member with rfl | rfl | rfl | rfl | rfl <;>
      simp [required, requiredAll, requiredLeast, isName, isString, isRegex, isReference, isTerm]

theorem single_list (number : String) {named : String} (here : baseName named = "named") :
    ∀ field ∈ ["op", "named"], (ofTerm (.choice [
      .capture "op" (.regex "[?*+]"),
      .seq [
        .literal "\x7b",
        .optional (.capture "min" (.rule number)),
        .literal ",",
        .optional (.capture "max" (.rule number)),
        .literal "\x7d"],
      .seq [
        .capture "op" (.regex "<:|:>?"),
        .optional (.capture "opt_leading" (.literal ",")),
        .rule named,
        .optional (.capture "opt_trailing" (.literal ","))]])).isSingle field = true := by
  intro field member
  simp only [List.mem_cons, List.not_mem_nil, or_false] at member
  refine isSingle_of_occurrences ?_ ?_
  · rcases member with rfl | rfl <;>
      simp [occurrences, occurrencesAll, occurrencesMost, Term.optional, here, choiceField, countField]
  · rcases member with rfl | rfl <;>
      simp [required, requiredAll, requiredLeast, Term.optional, here]

/-- The layers of terms, from the outermost on. -/
inductive Layer : Nat → Term → Prop
  | stack : Layer 0 stackLayer
  | choice : Layer 1 choiceLayer
  | sequence : Layer 2 sequenceLayer
  | atom : Layer innermostLayer atomLayer

/-! ### Steps of the reader -/

/-- Branches up to a given depth are read without breaking off. -/
structure Reads (fuel : Nat) : Prop where
  grammar : ∀ {b}, Record grammar b → Branch.depth b ≤ fuel → Succeeds (readGrammar fuel b)
  statement : ∀ {g b}, Record statement b → Branch.depth b ≤ fuel → Succeeds (readStatement fuel g (.branch b))
  term : ∀ {layer t b}, Layer layer t → Record t b → Branch.depth b ≤ fuel →
    Succeeds (readTerm fuel layer (.branch b))
  named : ∀ {b}, Record named b → Branch.depth b ≤ fuel → Succeeds (readNamed fuel (.branch b))
  atom : ∀ {b}, Record atom b → Branch.depth b ≤ fuel → Succeeds (readAtom fuel (.branch b))
  quant : ∀ {t b}, Record quant b → Branch.depth b ≤ fuel → Succeeds (readQuant fuel t (.branch b))

theorem field_eq {b : Branch} {name : String} {node : Node} (present : b.one? name = some node) :
    field b name = pure node := by
  rw [field, present]

section Steps

variable {fuel : Nat} {b : Branch}

/-- The grammar in a branch is read statement by statement, whatever other fields the branch has. -/
theorem Reads.statements (reads : Reads fuel) (record : Record Metagrammar.grammar b) {b' : Branch}
    (same : b'.get? "stmt" = b.get? "stmt") (deep : Branch.depth b' ≤ fuel + 1) :
    Succeeds (readGrammar (fuel + 1) b') := by
  have alike : b'.many "stmt" = b.many "stmt" := by
    rw [Branch.many, same]
    rfl
  have defined : flat.get? "stmt" = some Metagrammar.statement := rfl
  rw [readGrammar]
  refine .foldlM (fun g node member => ?_) _
  have less : node.depth < Branch.depth b' := depth_lt_of_many member
  rw [alike] at member
  obtain ⟨child, rfl, inside, -⟩ := record.branch (.inr member) defined (by decide)
    (by simp [Metagrammar.grammar, Term.many1, contributors])
  exact reads.statement inside (Nat.le_of_lt_succ (Nat.lt_of_lt_of_le less deep))

/-- The terms in a branch are those of the next layer. -/
theorem Reads.terms (reads : Reads fuel) {t u : Term} {rule : String} {layer : Nat} (record : Record t b)
    (deep : Branch.depth b ≤ fuel + 1) (defined : flat.get? rule = some u) (here : Layer layer u)
    (only : ∀ part ∈ contributors t, "term" = fieldOf part → part = .rule rule) :
    Succeeds ((b.many "term").mapM (readTerm fuel layer)) := by
  refine .mapM fun node member => ?_
  obtain ⟨child, rfl, inside, less⟩ := record.branch (.inr member) defined (by decide) only
  exact reads.term here inside (by omega)

theorem Reads.statement_step (reads : Reads fuel) {g : Grammar} (record : Record Metagrammar.statement b)
    (deep : Branch.depth b ≤ fuel + 1) : Succeeds (readStatement (fuel + 1) g (.branch b)) := by
  rw [readStatement]
  simp only [Node.branch?, Option.bind_some]
  cases found : b.one? "prod" with
  | none => exact .pure _
  | some node =>
    have isProd : baseName "prod" = "prod" := baseName_rule (by decide)
    have isComment : baseName "COMMENT" = "COMMENT" := baseName_rule (by decide)
    have isName : baseName "IDENT" = "IDENT" := baseName_rule (by decide)
    have isTerm : baseName "term" = "term" := baseName_rule (by decide)
    have defined : flat.get? "prod" = some production := rfl
    obtain ⟨child, rfl, inside, less⟩ := record.branch (.inl found) defined (by decide)
      (by simp [Metagrammar.statement, contributors, contributorsAll, fieldOf, isComment, isProd])
    have named : flat.get? "IDENT" = some (.regex identifier) := rfl
    obtain ⟨name, present, -⟩ := inside.item List.mem_cons_self named isName (single_name isName isTerm)
    have outermost : flat.get? "term" = some stackLayer := rfl
    have terms := reads.terms inside (by omega) outermost .stack
      (by simp [production, Term.many1, contributors, contributorsAll, fieldOf, isName])
    simp only [branchOf, pure_bind, field_eq present]
    exact terms.bind fun _ => (succeeds_checkNew _ _).bind fun _ => .pure _

/-- The innermost layer is an atom with what is written behind it. -/
theorem Reads.innermost_step (reads : Reads fuel) (record : Record atomLayer b)
    (deep : Branch.depth b ≤ fuel + 1) : Succeeds (readTerm (fuel + 1) innermostLayer (.branch b)) := by
  have isNamed : baseName "named" = "named" := baseName_rule (by decide)
  have isQuant : baseName "quant" = "quant" := baseName_rule (by decide)
  have defined : flat.get? "named" = some Metagrammar.named := rfl
  have behind : flat.get? "quant" = some Metagrammar.quant := rfl
  obtain ⟨child, present, inside, less⟩ := record.item List.mem_cons_self defined isNamed
    (single_named isNamed isQuant)
  rw [readTerm]
  simp only [branchOf, pure_bind, if_pos, field_eq present]
  refine (reads.named inside (by omega)).bind fun t => .foldlM (fun t node member => ?_) _
  obtain ⟨child, rfl, inside, less⟩ := record.branch (.inr member) behind (by decide)
    (by simp [atomLayer, contributors, contributorsAll, fieldOf, Term.many, isNamed])
  exact reads.quant inside (by omega)

/-- A layer that another one is inside of: its terms are combined, and those of the third may have local rules. -/
theorem Reads.layer_step (reads : Reads fuel) {layer : Nat} {t : Term} (inner : layer ≠ innermostLayer)
    (record : Record t b) (deep : Branch.depth b ≤ fuel + 1)
    (terms : Succeeds ((b.many "term").mapM (readTerm fuel (layer + 1))))
    (only : ∀ part ∈ contributors t, "grammar" = fieldOf part → part = .rule "grammar") :
    Succeeds (readTerm (fuel + 1) layer (.branch b)) := by
  rw [readTerm]
  simp only [branchOf, pure_bind, if_neg inner]
  refine terms.bind fun _ => ?_
  split
  · exact .pure _
  · split
    · next node found =>
      have defined : flat.get? "grammar" = some Metagrammar.grammar := rfl
      obtain ⟨child, rfl, inside, less⟩ := record.branch (.inl found) defined (by decide) only
      simp only [pure_bind]
      exact (reads.grammar inside (by omega)).bind fun _ => .pure _
    · exact .pure _

theorem Reads.term_step (reads : Reads fuel) {layer : Nat} {t : Term} (here : Layer layer t)
    (record : Record t b) (deep : Branch.depth b ≤ fuel + 1) : Succeeds (readTerm (fuel + 1) layer (.branch b)) := by
  have isTerm : baseName "term" = "term" := baseName_rule (by decide)
  have isGrammar : baseName "grammar" = "grammar" := baseName_rule (by decide)
  have notFirst : "grammar" ≠ baseName "term@1" := (baseName_layer_ne 1).symm
  have notSecond : "grammar" ≠ baseName "term@2" := (baseName_layer_ne 2).symm
  have notThird : "grammar" ≠ baseName "term@3" := (baseName_layer_ne 3).symm
  cases here with
  | stack =>
    have defined : flat.get? "term@1" = some choiceLayer := rfl
    have terms := reads.terms record deep defined .choice (by simp [stackLayer, contributors, fieldOf])
    exact reads.layer_step (by decide) record deep terms (by simp [stackLayer, contributors, fieldOf, notFirst])
  | choice =>
    have defined : flat.get? "term@2" = some sequenceLayer := rfl
    have terms := reads.terms record deep defined .sequence (by simp [choiceLayer, contributors, fieldOf])
    exact reads.layer_step (by decide) record deep terms (by simp [choiceLayer, contributors, fieldOf, notSecond])
  | sequence =>
    have defined : flat.get? "term@3" = some atomLayer := rfl
    have terms := reads.terms record deep defined .atom
      (by simp [sequenceLayer, contributors, contributorsAll, fieldOf, Term.many1, Term.optional, isGrammar])
    exact reads.layer_step (by decide) record deep terms
      (by simp [sequenceLayer, contributors, contributorsAll, fieldOf, Term.many1, Term.optional, notThird])
  | atom => exact reads.innermost_step record deep

theorem Reads.named_step (reads : Reads fuel) (record : Record Metagrammar.named b)
    (deep : Branch.depth b ≤ fuel + 1) : Succeeds (readNamed (fuel + 1) (.branch b)) := by
  have isAtom : baseName "atom" = "atom" := baseName_rule (by decide)
  have isName : baseName "IDENT" = "IDENT" := baseName_rule (by decide)
  have defined : flat.get? "atom" = some Metagrammar.atom := rfl
  obtain ⟨child, present, inside, less⟩ := record.item (List.mem_cons_of_mem _ List.mem_cons_self) defined isAtom
    (single_atom isAtom isName)
  rw [readNamed]
  simp only [branchOf, pure_bind, field_eq present]
  refine (reads.atom inside (by omega)).bind fun t => ?_
  split
  · exact .pure _
  · exact .pure _

theorem succeeds_readReference {b : Branch} (record : Record reference b) : Succeeds (readReference (.branch b)) := by
  have isName : baseName "IDENT" = "IDENT" := baseName_rule (by decide)
  have defined : flat.get? "IDENT" = some (.regex identifier) := rfl
  obtain ⟨child, present, -⟩ := record.item (List.mem_cons_of_mem _ List.mem_cons_self) defined isName
    (single_reference isName)
  rw [readReference]
  simp only [branchOf, pure_bind, field_eq present]
  split
  · exact (succeeds_readLiteral _).bind fun _ => .pure _
  · exact .pure _

theorem Reads.atom_step (reads : Reads fuel) (record : Record Metagrammar.atom b)
    (deep : Branch.depth b ≤ fuel + 1) : Succeeds (readAtom (fuel + 1) (.branch b)) := by
  have isName : baseName "IDENT" = "IDENT" := baseName_rule (by decide)
  have isString : baseName "STR" = "STR" := baseName_rule (by decide)
  have isRegex : baseName "RE" = "RE" := baseName_rule (by decide)
  have isReference : baseName "REF" = "REF" := baseName_rule (by decide)
  have isTerm : baseName "term" = "term" := baseName_rule (by decide)
  have single := single_alternative isName isString isRegex isReference isTerm
  obtain ⟨n, index, t, part, entries, found, chosen, entered, subset, holds⟩ := record.chosen
  rw [readAtom]
  simp only [branchOf, pure_bind, chosen]
  rcases index with _ | _ | _ | _ | _ | _ | index
  · obtain rfl := Option.some.inj found
    have defined : flat.get? "IDENT" = some (.regex identifier) := rfl
    obtain ⟨child, present, -⟩ := one_of_rule holds defined entered subset isName (single _ (by decide))
    simp only [field_eq present, pure_bind]
    exact .pure _
  · obtain rfl := Option.some.inj found
    have defined : flat.get? "STR" = some (.regex string) := rfl
    obtain ⟨child, present, -⟩ := one_of_rule holds defined entered subset isString (single _ (by decide))
    simp only [field_eq present, pure_bind]
    exact (succeeds_readLiteral _).bind fun _ => .pure _
  · obtain rfl := Option.some.inj found
    have defined : flat.get? "RE" = some (.regex regex) := rfl
    obtain ⟨child, present, -⟩ := one_of_rule holds defined entered subset isRegex (single _ (by decide))
    simp only [field_eq present, pure_bind]
    exact .pure _
  · obtain rfl := Option.some.inj found
    have defined : flat.get? "REF" = some reference := rfl
    obtain ⟨child, present, inside, -⟩ := one_of_rule holds defined entered subset isReference (single _ (by decide))
    simp only [field_eq present, pure_bind]
    exact succeeds_readReference inside
  · obtain rfl := Option.some.inj found
    have outermost : flat.get? "term" = some stackLayer := rfl
    rw [Enters] at entered
    obtain ⟨part', entered, subset'⟩ := entered.mem (List.mem_cons_of_mem _ List.mem_cons_self)
    obtain ⟨child, present, inside, less⟩ := one_of_rule holds outermost entered
      (List.Subset.trans subset' subset) isTerm (single _ (by decide))
    simp only [field_eq present, pure_bind]
    exact reads.term .stack inside (by omega)
  · exact .pure _
  · exact .pure _

/-- The operator of a list is one of the three that there are. -/
theorem operator_known {n : Nat} {t : Term} {entries part : Entries} (holds : Holds (ofTerm t) entries b)
    (entered : Enters (Recorded n) [flat] (.capture "op" (.regex "<:|:>?")) part) (subset : part ⊆ entries)
    (single : (ofTerm t).isSingle "op" = true) : ∃ assoc, Assoc.ofOperator? (textOf b "op") = some assoc := by
  obtain ⟨inside, child, ⟨s, shows, rfl⟩, shown, rfl⟩ := entered
  obtain ⟨blanks, made, input, m, inForce, compiled, genuine, matched, rfl⟩ := shows
  have padded : Scope.padding [flat] = .ok (some padding) := rfl
  obtain rfl := Except.ok.inj (padded.symm.trans inForce)
  have present : b.one? "op" = some (.branch child) := holds.one_of_mem single (subset List.mem_cons_self)
  have text : textOf b "op" = String.ofList m.output.chars := by
    rw [textOf, present, ← shown.chars_eq (genuine.output matched)]
    rfl
  have known := operator_of_match compiled matched
  simp only [List.mem_cons, List.not_mem_nil, or_false] at known
  rw [text]
  rcases known with left | none | right
  · rw [left]
    exact ⟨_, Assoc.ofOperator?_operator .rightToLeft⟩
  · rw [none]
    exact ⟨_, Assoc.ofOperator?_operator .flat⟩
  · rw [right]
    exact ⟨_, Assoc.ofOperator?_operator .leftToRight⟩

theorem Reads.quant_step (reads : Reads fuel) {t : Term} (record : Record Metagrammar.quant b)
    (deep : Branch.depth b ≤ fuel + 1) : Succeeds (readQuant (fuel + 1) t (.branch b)) := by
  have isNamed : baseName "named" = "named" := baseName_rule (by decide)
  have single := single_list "INT" isNamed
  obtain ⟨n, index, u, part, entries, found, chosen, entered, subset, holds⟩ := record.chosen
  rw [readQuant]
  simp only [branchOf, pure_bind, chosen]
  rcases index with _ | _ | _ | index
  · exact .pure _
  · exact (succeeds_readBound _ _).bind fun _ => (succeeds_readBound _ _).bind fun _ => .pure _
  · obtain rfl := Option.some.inj found
    have defined : flat.get? "named" = some Metagrammar.named := rfl
    rw [Enters] at entered
    obtain ⟨operator, captured, before⟩ := entered.mem List.mem_cons_self
    obtain ⟨separator, entered, within⟩ :=
      entered.mem (List.mem_cons_of_mem _ (List.mem_cons_of_mem _ List.mem_cons_self))
    obtain ⟨assoc, known⟩ := operator_known holds captured (List.Subset.trans before subset) (single _ (by decide))
    obtain ⟨child, present, inside, less⟩ := one_of_rule holds defined entered (List.Subset.trans within subset)
      isNamed (single _ (by decide))
    simp only [field_eq present, pure_bind, known]
    exact (reads.named inside (by omega)).bind fun _ => .pure _
  · cases found

end Steps

/-- Branches of any depth are read without breaking off. -/
theorem reads (fuel : Nat) : Reads fuel := by
  induction fuel with
  | zero =>
    have none (b : Branch) : ¬ Branch.depth b ≤ 0 := by
      cases b
      exact Nat.not_succ_le_zero _
    exact {
      grammar := fun _ deep => absurd deep (none _)
      statement := fun _ deep => absurd deep (none _)
      term := fun _ _ deep => absurd deep (none _)
      named := fun _ deep => absurd deep (none _)
      atom := fun _ deep => absurd deep (none _)
      quant := fun _ deep => absurd deep (none _) }
  | succ fuel ih =>
    exact {
      grammar := fun record deep => ih.statements record rfl deep
      statement := fun record deep => ih.statement_step record deep
      term := fun here record deep => ih.term_step here record deep
      named := fun record deep => ih.named_step record deep
      atom := fun record deep => ih.atom_step record deep
      quant := fun record deep => ih.quant_step record deep }

end Metagrammar

open Metagrammar Generic

/-- **The tree of a source is read to the end.**  What a reader of a tree by the grammar of grammars objects to are
violations, and there is at least one of them. -/
theorem Grammar.ofTree_fails {p : Parsers} (compiled : metaparsers = .ok p) {input : Slice} (genuine : input.Genuine)
    {tree : Tree} (parsed : p.parse grammarRule input = .ok tree) :
    Except.FailsOnly Error.Reports (Grammar.ofTree tree) := by
  have alone := (parsers_eq compiled).2
  obtain ⟨rest, found, -⟩ := Parsers.parsePartial_of_parse parsed
  rw [metaparsers] at compiled
  obtain ⟨body, root, value, recorded, made⟩ := Parsers.recorded_of_parsePartial compiled rfl genuine found
  rw [alone] at value recorded
  obtain rfl : Metagrammar.grammar = body := Option.some.inj value
  have free : Counters.occurrences ruleField Metagrammar.grammar = 0 := free_statements (baseName_rule (by decide))
  have bridged : metagrammar.toGeneric grammarRule tree = p.toGeneric grammarRule tree := by
    rw [Grammar.toGeneric, eliminateStacks_eq, Parsers.toGeneric, alone]
    rfl
  obtain ⟨b, entered, same⟩ : ∃ b, metagrammar.toGeneric grammarRule tree = .ok b ∧ b.get? "stmt" = root.get? "stmt" :=
    ⟨_, bridged.trans (made free), Table.get?_insert_of_ne root (by decide) _⟩
  obtain ⟨g, violations, read⟩ :
      ∃ g violations, (readGrammar (2 * Branch.depth b + 2) b).run [] = .ok (g, violations) :=
    (reads (2 * Branch.depth b + 1)).statements ⟨_, recorded⟩ same (by omega) []
  rw [Grammar.ofTree, entered]
  show Except.FailsOnly Error.Reports ((readGrammar (2 * Branch.depth b + 2) b).run [] >>= _)
  rw [read]
  show Except.FailsOnly Error.Reports (if violations.isEmpty then .ok g else .error (.grammar violations))
  split
  · exact .ok _
  · next some =>
    rw [List.isEmpty_iff] at some
    exact .error ⟨violations, some, rfl⟩

/-- **Reading grammars never breaks off.**  The grammar of grammars compiles, but for violations of its own; parsing a
source by it gives a tree or an error of the source; and reading the tree gives a grammar or violations, at least one.
So no source makes the reader miss a field, find one in another shape, or meet a rule that is not there. -/
theorem Grammar.read_outcome (text : String) (filename : Option String) :
    Except.Meets
      (fun p => Except.Meets (fun tree => Except.FailsOnly Error.Reports (Grammar.ofTree tree)) Error.OfInput
        (p.parse grammarRule (sourceSlice text filename)))
      Error.Reports metaparsers ∧
    Except.FailsOnly (fun e => e.OfInput ∨ e.Reports) (Grammar.read (sourceSlice text filename)) := by
  have genuine : (sourceSlice text filename).Genuine := Slice.genuine_whole _
  have parses (p : Parsers) (compiled : metaparsers = .ok p) :
      Except.FailsOnly Error.OfInput (p.parse grammarRule (sourceSlice text filename)) :=
    parse_error compiled _
  have reads (p : Parsers) (compiled : metaparsers = .ok p) (tree : Tree)
      (parsed : p.parse grammarRule (sourceSlice text filename) = .ok tree) :
      Except.FailsOnly Error.Reports (ofTree tree) :=
    ofTree_fails compiled genuine parsed
  constructor
  · exact compile_error.meets fun p compiled => (parses p compiled).meets (reads p compiled)
  · rw [Grammar.read]
    apply (compile_error.mono Or.inr).bind
    intro p compiled
    apply ((parses p compiled).mono Or.inl).bind
    intro tree parsed
    exact (reads p compiled tree parsed).mono Or.inr

end GrammarKit
