/-
Module: GrammarKit.Proofs.CutCompilation
Purpose: When automatic cutpoints keep a grammar from compiling.  The only place where a cutpoint may not stand is a
  padding rule.  That of the whole grammar is left alone, but those of local rules are not, and a literal that one of
  them exempts from padding may be unique.  Where this does not happen, a grammar compiles with automatic cutpoints just
  if it does without, and else fails with the same error; where it does, it does not compile with them.
Main exports: Padding.Spares, Grammar.SparesPadding, Term.tryBuild_transform, Grammar.eliminateStacks_withCutpoints,
  Grammar.compile_autoCutpoints
-/
import GrammarKit.Proofs.Compilable
import GrammarKit.Proofs.CutCircles
import GrammarKit.Proofs.CutTransparency
import GrammarKit.Proofs.StackElimination

namespace GrammarKit

open Table (EntriesPaired)

section Outcome

variable {ε α β : Type} {x : Except ε α} {y : Except ε β}

theorem Except.Paired.outcome_eq {r : α → β → Prop} (h : Paired r x y) : outcome y = outcome x := by
  cases h <;> rfl

theorem Except.Paired.of_outcome_eq (same : outcome y = outcome x) : Paired (fun _ _ => True) x y := by
  cases x with
  | ok a =>
    obtain ⟨b, rfl⟩ := outcome_eq_ok.mp same
    exact .ok trivial
  | error e =>
    obtain rfl := outcome_eq_error.mp same
    exact .error e

end Outcome

/-! ### Parts of transformed terms -/

namespace Term

variable (f : Term → Term)

theorem transformAll_concat (ts : List Term) (t : Term) :
    transformAll f (ts ++ [t]) = transformAll f ts ++ [t.transform f] := by
  induction ts with
  | nil => rfl
  | cons _ ts ih => exact congrArg (_ :: ·) ih

theorem mem_transformAll {ts : List Term} {t : Term} (member : t ∈ ts) :
    t.transform f ∈ transformAll f ts := by
  induction ts with
  | nil => cases member
  | cons _ ts ih =>
    rcases List.mem_cons.mp member with rfl | later
    · exact List.mem_cons_self
    · exact .tail _ (ih later)

theorem mem_transformEntries {entries : List (String × Term)} {rule : String × Term}
    (member : rule ∈ entries) : (rule.1, rule.2.transform f) ∈ transformEntries f entries := by
  induction entries with
  | nil => cases member
  | cons _ entries ih =>
    rcases List.mem_cons.mp member with rfl | later
    · exact List.mem_cons_self
    · exact .tail _ (ih later)

end Term

/-! ### Padding -/

namespace Padding

open Term (cutLiteral transformAll transformTable transformEntries transformAll_concat mem_transformAll)

/-- No literal that a padding rule exempts is among the given ones. -/
def Spares (unique : List String) (t : Term) : Prop :=
  ∀ padding, ofTerm t = .ok padding → ∀ text ∈ unique, .literal text ∉ padding.exempt

instance (unique : List String) (t : Term) : Decidable (Spares unique t) :=
  match made : ofTerm t with
  | .error _ => isTrue fun _ same => by rw [made] at same; cases same
  | .ok padding =>
      decidable_of_iff (∀ text ∈ unique, Term.literal text ∉ padding.exempt)
        ⟨fun spared _ same => by rw [made] at same; exact Except.ok.inj same ▸ spared,
          fun spared => spared padding made⟩

variable (unique : List String)

theorem refuse_transform (t : Term) (why : String) : refuse (t.transform (cutLiteral unique)) why = refuse t why := by
  rw [refuse, refuse, Term.spell_transform]

/-- What is neither a regular expression nor a choice is refused with cutpoints added as it is without. -/
theorem error_refuse_transform (t : Term) :
    (.error (refuse (t.transform (cutLiteral unique)) "must be a regex or a choice ending in one") :
      Except Violation Padding) = .error (refuse t "must be a regex or a choice ending in one") :=
  congrArg Except.error (refuse_transform unique t _)

theorem isTerminal_literal_transform {text : String}
    (terminal : isTerminal ((Term.literal text).transform (cutLiteral unique)) = true) : text ∉ unique := by
  rcases Term.literal_transform unique text with ⟨-, same⟩ | ⟨new, -⟩
  · rw [same] at terminal
    cases terminal
  · exact new

/-- The padding that a term with the given parts stands for. -/
def ofParts (whole last : Term) (exempt : List Term) : Except Violation Padding :=
  match last with
  | .regex pattern =>
      if (replaceEmptyGroup? [] pattern.toList).isNone then .error (refuse whole "has no () placeholder")
      else if !exempt.all isTerminal then .error (refuse whole "may only exempt literals and regexes")
      else .ok ⟨pattern, exempt⟩
  | _ => .error (refuse whole "must end in a regex")

theorem ofTerm_choice (exempt : List Term) (last : Term) :
    ofTerm (.choice (exempt ++ [last])) = ofParts (.choice (exempt ++ [last])) last exempt := by
  have split : parts (.choice (exempt ++ [last])) = .ok (last, exempt) := by
    simp only [parts, List.getLast?_concat, List.dropLast_concat]
  rw [ofTerm, split]
  rfl

theorem ofParts_congr {whole whole' : Term} (refused : ∀ why, refuse whole' why = refuse whole why) (last : Term)
    (exempt : List Term) : ofParts whole' last exempt = ofParts whole last exempt := by
  simp only [ofParts, refused]

theorem ofParts_eq_ok {whole last : Term} {exempt : List Term} {padding : Padding}
    (made : ofParts whole last exempt = .ok padding) :
    last = .regex padding.pattern ∧ padding.exempt = exempt ∧ exempt.all isTerminal = true := by
  unfold ofParts at made
  split at made
  · split at made
    · cases made
    · split at made
      · cases made
      · next terminals =>
        cases made
        exact ⟨rfl, rfl, by simpa using terminals⟩
  · cases made

theorem mem_exempt {t u : Term} {padding : Padding} (made : ofTerm t = .ok padding) (member : u ∈ padding.exempt) :
    ∃ ts, t = .choice ts ∧ u ∈ ts := by
  rcases terminals_of_ofTerm made with ⟨pattern, rfl⟩ | ⟨ts, rfl, -⟩
  · have made : ofParts (.regex pattern) (.regex pattern) [] = .ok padding := made
    rw [(ofParts_eq_ok made).2.1] at member
    cases member
  · rcases List.eq_nil_or_concat' ts with rfl | ⟨exempt, last, rfl⟩
    · cases made
    · rw [ofTerm_choice] at made
      rw [(ofParts_eq_ok made).2.1] at member
      exact ⟨_, rfl, List.mem_append_left _ member⟩

/-- Terminals of a padding rule among which none gets a cutpoint stay as they are. -/
theorem transformAll_of_spared {ts : List Term} (terminals : ∀ t ∈ ts, isTerminal t = true)
    (spared : ∀ text ∈ unique, .literal text ∉ ts) : transformAll (cutLiteral unique) ts = ts := by
  induction ts with
  | nil => rfl
  | cons t ts ih =>
    obtain ⟨here, others⟩ := List.forall_mem_cons.mp terminals
    have first : t.transform (cutLiteral unique) = t := by
      cases t with
      | regex _ => rfl
      | literal text =>
        rcases Term.literal_transform unique text with ⟨taken, -⟩ | ⟨-, same⟩
        · exact absurd List.mem_cons_self (spared text taken)
        · exact same
      | _ => cases here
    rw [transformAll, first, ih others fun text member inside => spared text member (.tail _ inside)]

/-- What is no terminal does not become one. -/
theorem isTerminal_of_transform {t : Term} (terminal : isTerminal (t.transform (cutLiteral unique)) = true) :
    isTerminal t = true := by
  cases t with
  | regex _ | literal _ => rfl
  | cut t =>
    obtain ⟨inner, same⟩ := Term.cut_transform unique t
    rw [same] at terminal
    cases terminal
  | _ => cases terminal

theorem all_isTerminal_transformAll {ts : List Term}
    (terminals : (transformAll (cutLiteral unique) ts).all isTerminal = true) : ts.all isTerminal = true := by
  rw [List.all_eq_true] at terminals ⊢
  exact fun t member => isTerminal_of_transform unique (terminals _ (mem_transformAll _ member))

/-- A padding rule keeps its parts if none of the literals that it exempts gets a cutpoint. -/
theorem ofParts_transform (whole last : Term) {exempt : List Term}
    (spared : ∀ padding, ofParts whole last exempt = .ok padding → ∀ text ∈ unique, .literal text ∉ padding.exempt) :
    ofParts whole (last.transform (cutLiteral unique)) (transformAll (cutLiteral unique) exempt)
      = ofParts whole last exempt := by
  cases last with
  | regex pattern =>
    by_cases absent : (replaceEmptyGroup? [] pattern.toList).isNone = true
    · exact (if_pos absent).trans (if_pos absent).symm
    · by_cases terminals : exempt.all isTerminal = true
      · have made : ofParts whole (.regex pattern) exempt = .ok ⟨pattern, exempt⟩ :=
          (if_neg absent).trans (if_neg (by rw [terminals]; exact Bool.false_ne_true))
        rw [transformAll_of_spared unique (List.all_eq_true.mp terminals) (spared _ made)]
        rfl
      · have remain : ¬ (transformAll (cutLiteral unique) exempt).all isTerminal = true :=
          fun all => terminals (all_isTerminal_transformAll unique all)
        refine (if_neg absent).trans (.trans ?_ (if_neg absent).symm)
        rw [Bool.not_eq_true] at terminals remain
        rw [terminals, remain]
        rfl
  | literal text =>
    rcases Term.literal_transform unique text with ⟨-, same⟩ | ⟨-, same⟩ <;> rw [same] <;> rfl
  | cut t =>
    obtain ⟨inner, same⟩ := Term.cut_transform unique t
    rw [same]
    rfl
  | _ => rfl

/-- A padding rule that exempts no literal that gets a cutpoint stands for the same padding, or is refused for the same
reason. -/
theorem ofTerm_transform {t : Term} (spares : Spares unique t) :
    ofTerm (t.transform (cutLiteral unique)) = ofTerm t := by
  cases t with
  | regex _ => rfl
  | choice ts =>
    rcases List.eq_nil_or_concat' ts with rfl | ⟨exempt, last, rfl⟩
    · rfl
    · have refused := refuse_transform unique (.choice (exempt ++ [last]))
      have whole : (Term.choice (exempt ++ [last])).transform (cutLiteral unique)
          = .choice (transformAll (cutLiteral unique) exempt ++ [last.transform (cutLiteral unique)]) :=
        congrArg Term.choice (transformAll_concat _ exempt last)
      rw [whole] at refused ⊢
      rw [ofTerm_choice, ofTerm_choice, ofParts_congr refused]
      exact ofParts_transform unique _ last fun padding made => spares padding ((ofTerm_choice exempt last).trans made)
  | literal text =>
    have refused := error_refuse_transform unique (.literal text)
    rcases Term.literal_transform unique text with ⟨-, same⟩ | ⟨-, same⟩
    · rw [same] at refused ⊢
      exact refused
    · rw [same]
  | cut t =>
    have refused := error_refuse_transform unique (.cut t)
    obtain ⟨inner, same⟩ := Term.cut_transform unique t
    rw [same] at refused ⊢
    exact refused
  | _ => exact error_refuse_transform unique _

/-- With cutpoints added, a padding rule that exempts a literal that gets one is refused. -/
theorem spares_of_ofTerm {t : Term} {padding : Padding}
    (made : ofTerm (t.transform (cutLiteral unique)) = .ok padding) : Spares unique t := by
  intro original made' text taken exempted
  obtain ⟨ts, rfl, member⟩ := mem_exempt made' exempted
  rcases terminals_of_ofTerm made with ⟨_, clash⟩ | ⟨us, same, terminals⟩
  · cases clash
  · obtain rfl := Term.choice.inj same
    exact isTerminal_literal_transform unique (terminals _ (mem_transformAll _ member)) taken

/-- The padding in force inside local rules is the same with cutpoints added, if they may stand in its rule. -/
theorem ofGrammar_transform {rules : Grammar} (spares : ∀ t ∈ rules.get? paddingRule, Spares unique t)
    (outer : Option Padding) : ofGrammar (transformTable (cutLiteral unique) rules) outer = ofGrammar rules outer := by
  obtain ⟨entries⟩ := rules
  have found : Table.get? ⟨transformEntries (cutLiteral unique) entries⟩ paddingRule
      = (Table.get? ⟨entries⟩ paddingRule).map (Term.transform (cutLiteral unique)) :=
    Term.lookup_transformEntries _ _ entries
  rw [transformTable, ofGrammar, ofGrammar, found]
  cases here : Table.get? ⟨entries⟩ paddingRule with
  | none => rfl
  | some t =>
    simp only [Option.map_some]
    rw [ofTerm_transform unique (spares t here)]

theorem ofTerm_of_ofGrammar {rules : Grammar} {outer padding : Option Padding}
    (made : ofGrammar (transformTable (cutLiteral unique) rules) outer = .ok padding) {t : Term}
    (here : rules.get? paddingRule = some t) : ∃ padding, ofTerm (t.transform (cutLiteral unique)) = .ok padding := by
  obtain ⟨entries⟩ := rules
  have found : Table.get? ⟨transformEntries (cutLiteral unique) entries⟩ paddingRule
      = some (t.transform (cutLiteral unique)) := by
    have here : Table.lookup paddingRule entries = some t := here
    rw [Table.get?, Term.lookup_transformEntries, here, Option.map_some]
  rw [transformTable, ofGrammar, found] at made
  cases own : ofTerm (t.transform (cutLiteral unique)) with
  | error violation =>
    simp only [own] at made
    cases made
  | ok padding => exact ⟨padding, rfl⟩

/-- A term that stands for padding has no local rules. -/
theorem tables_of_ofTerm {t : Term} {padding : Padding}
    (made : ofTerm (t.transform (cutLiteral unique)) = .ok padding) : t.tables = [] := by
  cases t with
  | regex _ | literal _ | rule _ => rfl
  | choice ts =>
    rcases terminals_of_ofTerm made with ⟨_, clash⟩ | ⟨us, same, terminals⟩
    · cases clash
    · obtain rfl := Term.choice.inj same
      have plain : ∀ t ∈ ts, isTerminal t = true :=
        fun t member => isTerminal_of_transform unique (terminals _ (mem_transformAll _ member))
      clear same terminals made
      show Term.tablesAll ts = []
      induction ts with
      | nil => rfl
      | cons t ts ih =>
        obtain ⟨here, others⟩ := List.forall_mem_cons.mp plain
        rw [Term.tablesAll, ih others]
        cases t with
        | regex _ | literal _ => rfl
        | _ => cases here
  | cut t =>
    obtain ⟨inner, same⟩ := Term.cut_transform unique t
    rw [same] at made
    cases made
  | _ => cases made

end Padding

/-! ### Compilation -/

/-- The padding rule of a table exempts no literal that is among the given ones. -/
def Grammar.Spares (unique : List String) (rules : Grammar) : Prop :=
  ∀ t ∈ rules.get? paddingRule, Padding.Spares unique t

instance (unique : List String) (rules : Grammar) : Decidable (rules.Spares unique) :=
  inferInstanceAs (Decidable (∀ t ∈ rules.get? paddingRule, _))

namespace Term

variable (unique : List String)

theorem tryBuild_cutLiteral (names : List String) (padding : Option Padding) (t : Term) :
    tryBuild names padding (cutLiteral unique t) = tryBuild names padding t := by
  unfold cutLiteral
  split
  · split <;> rfl
  · rfl
  · rfl

theorem visibleNames_transformEntries (f : Term → Term) (entries : List (String × Term)) :
    Grammar.visibleNames ⟨transformEntries f entries⟩ = Grammar.visibleNames ⟨entries⟩ := by
  rw [Grammar.visibleNames, Grammar.visibleNames, Table.names, Table.names, names_transformEntries]

mutual
/-- With cutpoints added, a term is compiled or refused as before, where all padding rules inside it are spared. -/
theorem tryBuild_transform : ∀ (names : List String) (padding : Option Padding) (t : Term),
    (∀ level ∈ t.tables, level.Spares unique) →
    tryBuild names padding (t.transform (cutLiteral unique)) = tryBuild names padding t
  | _, _, rule _, _ => rfl
  | names, padding, literal _, _ => tryBuild_cutLiteral unique names padding _
  | _, _, regex _, _ => rfl
  | names, padding, seq ts, spares => tryAll_transform names padding ts spares
  | names, padding, choice ts, spares => tryAll_transform names padding ts spares
  | _, _, stack _, _ => rfl
  | names, padding, list element separator _, spares => by
    obtain ⟨first, second⟩ := List.forall_mem_append.mp spares
    rw [transform, tryBuild_cutLiteral, tryBuild, tryBuild, tryBuild_transform names padding element first,
      tryBuild_transform names padding separator second]
  | names, padding, quant t _ _, spares => tryBuild_transform names padding t spares
  | names, padding, capture _ t, spares => tryBuild_transform names padding t spares
  | _, _, backref _ none, _ => rfl
  | names, _, backref _ (some t), spares => tryBuild_transform names none t spares
  | names, padding, cut t, spares =>
    (tryBuild_cutLiteral unique names padding _).trans (tryBuild_transform names padding t spares)
  | names, padding, withRules t ⟨entries⟩, spares => by
    obtain ⟨inside, table⟩ := List.forall_mem_append.mp spares
    obtain ⟨own, others⟩ := List.forall_mem_cons.mp table
    rw [transform, tryBuild_cutLiteral, tryBuild, tryBuild, Padding.ofGrammar_transform unique own, transformTable,
      visibleNames_transformEntries]
    cases Padding.ofGrammar ⟨entries⟩ padding with
    | error e => rfl
    | ok padding =>
      simp only [bind, Except.bind]
      rw [tryTable, tryTable, tryEntries_transform _ padding entries others, tryBuild_transform _ padding t inside]

theorem tryAll_transform : ∀ (names : List String) (padding : Option Padding) (ts : List Term),
    (∀ level ∈ tablesAll ts, level.Spares unique) →
    tryAll names padding (transformAll (cutLiteral unique) ts) = tryAll names padding ts
  | _, _, [], _ => rfl
  | names, padding, t :: ts, spares => by
    obtain ⟨first, others⟩ := List.forall_mem_append.mp spares
    rw [transformAll, tryAll, tryAll, tryBuild_transform names padding t first,
      tryAll_transform names padding ts others]

theorem tryEntries_transform : ∀ (names : List String) (padding : Option Padding) (entries : List (String × Term)),
    (∀ level ∈ tablesEntries entries, level.Spares unique) →
    tryEntries names padding (transformEntries (cutLiteral unique) entries) = tryEntries names padding entries
  | _, _, [], _ => rfl
  | names, padding, (name, t) :: entries, spares => by
    obtain ⟨first, others⟩ := List.forall_mem_append.mp spares
    rw [transformEntries, tryEntries, tryEntries, tryEntries_transform names padding entries others,
      tryBuild_transform names padding t first]
end

mutual
/-- If a term is compiled with cutpoints added, then all padding rules inside it are spared. -/
theorem spares_of_tryBuild : ∀ (names : List String) (padding : Option Padding) (t : Term),
    tryBuild names padding (t.transform (cutLiteral unique)) = .ok () → Program.DistinctNames t.features →
    ∀ level ∈ t.tables, level.Spares unique
  | _, _, rule _, _, _ => List.forall_mem_nil _
  | _, _, literal _, _, _ => List.forall_mem_nil _
  | _, _, regex _, _, _ => List.forall_mem_nil _
  | names, padding, seq ts, built, distinct => spares_of_tryAll names padding ts built distinct
  | names, padding, choice ts, built, distinct => spares_of_tryAll names padding ts built distinct
  | _, _, stack _, built, _ => by cases built
  | names, padding, list element separator _, built, distinct => by
    rw [transform, tryBuild_cutLiteral] at built
    obtain ⟨_, first, second⟩ := Except.bind_eq_ok built
    exact List.forall_mem_append.mpr ⟨spares_of_tryBuild names padding element first distinct.left,
      spares_of_tryBuild names padding separator second distinct.right⟩
  | names, padding, quant t _ _, built, distinct => spares_of_tryBuild names padding t built distinct.tail
  | names, padding, capture _ t, built, distinct => spares_of_tryBuild names padding t built distinct.tail
  | _, _, backref _ none, _, _ => List.forall_mem_nil _
  | names, _, backref _ (some t), built, distinct => spares_of_tryBuild names none t built distinct.tail
  | names, padding, cut t, built, distinct => by
    rw [transform, tryBuild_cutLiteral] at built
    exact spares_of_tryBuild names padding t built distinct
  | names, padding, withRules t ⟨entries⟩, built, distinct => by
    rw [transform, tryBuild_cutLiteral, tryBuild] at built
    obtain ⟨inner, padded, built⟩ := Except.bind_eq_ok built
    obtain ⟨_, table, body⟩ := Except.bind_eq_ok built
    have others := distinct.right
    have nodup : (entries.map (·.1)).Nodup := others _ List.mem_cons_self
    have spared := spares_of_tryBuild _ inner t body distinct.left
    refine List.forall_mem_append.mpr ⟨spared, List.forall_mem_cons.mpr ⟨?_, ?_⟩⟩
    · intro u here
      obtain ⟨_, made⟩ := Padding.ofTerm_of_ofGrammar unique padded here
      exact Padding.spares_of_ofTerm unique made
    · refine spares_of_tryEntries _ inner entries table others.tail fun u member => ?_
      obtain ⟨_, made⟩ := Padding.ofTerm_of_ofGrammar unique padded (Table.lookup_of_nodup nodup member)
      exact Padding.tables_of_ofTerm unique made

theorem spares_of_tryAll : ∀ (names : List String) (padding : Option Padding) (ts : List Term),
    tryAll names padding (transformAll (cutLiteral unique) ts) = .ok () → Program.DistinctNames (featuresAll ts) →
    ∀ level ∈ tablesAll ts, level.Spares unique
  | _, _, [], _, _ => List.forall_mem_nil _
  | names, padding, t :: ts, built, distinct => by
    obtain ⟨_, first, others⟩ := Except.bind_eq_ok built
    exact List.forall_mem_append.mpr ⟨spares_of_tryBuild names padding t first distinct.left,
      spares_of_tryAll names padding ts others distinct.right⟩

theorem spares_of_tryEntries : ∀ (names : List String) (padding : Option Padding) (entries : List (String × Term)),
    tryEntries names padding (transformEntries (cutLiteral unique) entries) = .ok () →
    Program.DistinctNames (featuresEntries entries) → (∀ t, (paddingRule, t) ∈ entries → t.tables = []) →
    ∀ level ∈ tablesEntries entries, level.Spares unique
  | _, _, [], _, _, _ => List.forall_mem_nil _
  | names, padding, (name, t) :: entries, built, distinct, plain => by
    rw [transformEntries, tryEntries] at built
    rw [featuresEntries] at distinct
    have plain' : ∀ t, (paddingRule, t) ∈ entries → t.tables = [] := fun t member => plain t (.tail _ member)
    refine List.forall_mem_append.mpr ?_
    split at built
    · next own =>
      rw [plain t (own ▸ List.mem_cons_self)]
      exact ⟨List.forall_mem_nil _, spares_of_tryEntries names padding entries built distinct.right plain'⟩
    · next rule =>
      obtain ⟨_, first, others⟩ := Except.bind_eq_ok built
      rw [if_neg fun padding => rule padding.1] at distinct
      exact ⟨spares_of_tryBuild names padding t first distinct.left,
        spares_of_tryEntries names padding entries others distinct.right plain'⟩
end

end Term

namespace Grammar

open Term

/-- Once the stacks among local rules are expanded, no padding rule of a local table exempts a literal that gets a
cutpoint.  The padding rule of the grammar itself gets none. -/
def SparesPadding (g : Grammar) : Prop :=
  ∀ traversed, g.traverse eliminateLocal = .ok traversed → ∀ rule ∈ traversed.entries, rule.1 ≠ paddingRule →
    ∀ level ∈ rule.2.tables, level.Spares g.uniqueLiterals

instance (g : Grammar) : Decidable g.SparesPadding :=
  match eliminated : g.traverse eliminateLocal with
  | .error _ => isTrue fun _ same => by rw [eliminated] at same; cases same
  | .ok traversed =>
      decidable_of_iff (∀ rule ∈ traversed.entries, rule.1 ≠ paddingRule →
          ∀ level ∈ rule.2.tables, level.Spares g.uniqueLiterals)
        ⟨fun spares _ same => by rw [eliminated] at same; exact Except.ok.inj same ▸ spares,
          fun spares => spares traversed eliminated⟩

section Recut

variable {unique : List String} {flat flat' : Grammar}

/-- All padding rules inside a term are spared. -/
def SparesInside (unique : List String) (t : Term) : Prop :=
  ∀ level ∈ t.tables, level.Spares unique

theorem sparesInside_expandRule {name : String} {t : Term} {layers : List (String × Term)}
    (expanded : expandRule name t = .ok layers) (spares : SparesInside unique t) :
    ∀ layer ∈ layers, SparesInside unique layer.2 := by
  intro layer member level inside
  apply spares level
  rw [← tables_expandRule expanded, tablesEntries_eq_flatMap]
  exact List.mem_flatMap.mpr ⟨layer, member, inside⟩

theorem ofGrammar_recut {P : Term → Prop} (recut : EntriesPaired (Recut unique P) flat.entries flat'.entries)
    (outer : Option Padding) : Padding.ofGrammar flat' outer = Padding.ofGrammar flat outer := by
  have found := recut.lookup paddingRule
  rw [Padding.ofGrammar, Padding.ofGrammar, Table.get?, Table.get?]
  revert found
  cases Table.lookup paddingRule flat.entries <;> cases Table.lookup paddingRule flat'.entries <;> rintro ⟨found⟩
  · rfl
  · rcases found with rfl | ⟨other, -⟩
    · rfl
    · exact absurd rfl other

theorem tryEntries_recut {entries entries' : List (String × Term)}
    (recut : EntriesPaired (Recut unique (SparesInside unique)) entries entries') (names : List String)
    (padding : Option Padding) : tryEntries names padding entries' = tryEntries names padding entries := by
  induction recut with
  | nil => rfl
  | @cons a b _ _ first _ ih =>
    obtain ⟨_, t⟩ := a
    obtain ⟨name, u⟩ := b
    obtain ⟨rfl, here⟩ := first
    rw [tryEntries, tryEntries, ih]
    have here : Recut unique (SparesInside unique) name t u := here
    rcases here with rfl | ⟨-, spares, rfl⟩
    · rfl
    · rw [tryBuild_transform unique names padding t spares]

/-- Grammars without stacks that differ in automatic cutpoints compile, or are refused, alike. -/
theorem tryCompile_recut (recut : EntriesPaired (Recut unique (SparesInside unique)) flat.entries flat'.entries) :
    flat'.tryCompile = flat.tryCompile := by
  have visible : flat'.visibleNames = flat.visibleNames := by
    rw [visibleNames, visibleNames, Table.names, Table.names, recut.names]
  rw [tryCompile, tryCompile, ofGrammar_recut recut, visible]
  obtain ⟨entries⟩ := flat
  obtain ⟨entries'⟩ := flat'
  simp only [tryTable, tryEntries_recut recut]

theorem withCuts_recut {P : Term → Prop} (recut : EntriesPaired (Recut unique P) flat.entries flat'.entries) :
    EntriesPaired WithCuts flat.entries flat'.entries :=
  recut.mono fun {name t u} here => by
    rcases here with rfl | ⟨-, -, rfl⟩
    · exact ⟨id, addsCuts_id, (transform_id _).symm⟩
    · exact ⟨_, addsCuts_cutLiteral unique, rfl⟩

end Recut

/-- Where padding rules are spared, all stacks are expanded with automatic cutpoints as without. -/
theorem eliminateStacks_withCutpoints {g : Grammar} (spares : g.SparesPadding) :
    Except.Paired (fun flat flat' =>
        EntriesPaired (Recut g.uniqueLiterals (SparesInside g.uniqueLiterals)) flat.entries flat'.entries)
      g.eliminateStacks g.withCutpoints.eliminateStacks :=
  (traverse_withCutpoints g).attach.bind fun ⟨recut, traverses, _⟩ =>
    eliminateLayers_recut sparesInside_expandRule (recut_of_forall recut (spares _ traverses))

theorem compile_paired {g : Grammar} (spares : g.SparesPadding) (validate : Bool) :
    Except.Paired (fun _ _ => True) (g.compile ⟨validate, false⟩) (g.compile ⟨validate, true⟩) := by
  show Except.Paired _ (refuseViolations validate g.termViolations >>= _)
    (refuseViolations validate g.withCutpoints.termViolations >>= _)
  rw [termViolations_withCutpoints]
  refine (Except.Paired.refl (r := fun _ _ => True) (fun _ => trivial) _).bind fun _ => ?_
  refine ((eliminateStacks_withCutpoints spares).attach.mapError Error.structural).bind ?_
  rintro flat flat' ⟨recut, flattens, flattens'⟩
  have distinct : Program.DistinctNames flat.features := fun names member =>
    (features_eliminateStacks flattens _ member).1
  have distinct' : Program.DistinctNames flat'.features := fun names member =>
    (features_eliminateStacks flattens' _ member).1
  have outcomes : Except.outcome (Program.ofGrammar flat') = Except.outcome (Program.ofGrammar flat) := by
    rw [Program.ofGrammar_tryCompile distinct, Program.ofGrammar_tryCompile distinct', tryCompile_recut recut]
  refine (Except.Paired.of_outcome_eq outcomes).attach.bind ?_
  rintro p p' ⟨-, made, made'⟩
  rw [(Program.sideBySide_ofGrammar made made' distinct (withCuts_recut recut)).cycleViolations_eq]
  exact (Except.Paired.refl (r := fun _ _ => True) (fun _ => trivial) _).bind fun _ => .ok trivial

section Necessity

variable {g traversed traversed' flat' : Grammar}

/-- Where a table is compiled, so is the term of each of its rules, the padding rule apart. -/
theorem tryBuild_of_tryEntries {names : List String} {padding : Option Padding} {entries : List (String × Term)}
    (built : tryEntries names padding entries = .ok ()) {rule : String × Term} (member : rule ∈ entries)
    (other : rule.1 ≠ paddingRule) : tryBuild names padding rule.2 = .ok () := by
  induction entries with
  | nil => cases member
  | cons entry entries ih =>
    rw [tryEntries] at built
    rcases List.mem_cons.mp member with rfl | later
    · rw [if_neg other] at built
      obtain ⟨_, first, -⟩ := Except.bind_eq_ok built
      exact first
    · split at built
      · exact ih built later
      · obtain ⟨_, -, others⟩ := Except.bind_eq_ok built
        exact ih others later

/-- Rules get their automatic cutpoints also where the stacks among local rules are expanded. -/
theorem mem_traverse_withCutpoints (traverses : g.traverse eliminateLocal = .ok traversed)
    (traverses' : g.withCutpoints.traverse eliminateLocal = .ok traversed') {rule : String × Term}
    (member : rule ∈ traversed.entries) (other : rule.1 ≠ paddingRule) :
    (rule.1, rule.2.transform (cutLiteral g.uniqueLiterals)) ∈ traversed'.entries := by
  obtain ⟨_, t⟩ := rule
  obtain ⟨⟨name, source⟩, listed, rfl, here⟩ := exists_of_forall₂ (forall₂_traverse traverses).flip member
  have listed' : (name, source.transform (cutLiteral g.uniqueLiterals)) ∈ g.withCutpoints.entries := by
    rw [entries_withCutpoints]
    exact List.mem_map.mpr ⟨_, listed, by simp only [if_neg other]⟩
  obtain ⟨⟨_, u⟩, member', rfl, here'⟩ := exists_of_forall₂ (forall₂_traverse traverses') listed'
  rw [traverse_transform, here] at here'
  obtain rfl := Except.ok.inj here'
  exact member'

/-- All layers of the rules of a table are among the rules once its stacks are expanded. -/
theorem exists_expandRule {rules flat : Grammar} (layered : eliminateLayers rules = .ok flat) {rule : String × Term}
    (member : rule ∈ rules.entries) : ∃ layers, expandRule rule.1 rule.2 = .ok layers ∧ layers ⊆ flat.entries := by
  obtain ⟨expanded, each, together⟩ := perm_addExpanded layered
  obtain ⟨layers, listed, here⟩ := exists_of_forall₂ each member
  refine ⟨layers, here, fun layer inside => together.mem_iff.mpr (List.mem_append_left _ ?_)⟩
  exact List.mem_flatten.mpr ⟨layers, listed, inside⟩

/-- If a grammar is compiled with automatic cutpoints, then all padding rules are spared. -/
theorem sparesPadding_of_tryCompile (flattens : g.withCutpoints.eliminateStacks = .ok flat')
    (built : flat'.tryCompile = .ok ()) : g.SparesPadding := by
  intro traversed traverses rule member other level inside
  obtain ⟨traversed', traverses', layered⟩ := Except.bind_eq_ok flattens
  obtain ⟨layers', expanded', listed'⟩ :=
    exists_expandRule layered (mem_traverse_withCutpoints traverses traverses' member other)
  rw [expandRule_transform] at expanded'
  obtain ⟨layers, expanded, rfl⟩ := Except.map_eq_ok expanded'
  -- the table stands in some layer of the rule, which has been compiled with cutpoints added
  rw [← tables_expandRule expanded, tablesEntries_eq_flatMap] at inside
  obtain ⟨layer, listed, inside⟩ := List.mem_flatMap.mp inside
  have moved : (layer.1, layer.2.transform (cutLiteral g.uniqueLiterals)) ∈ flat'.entries :=
    listed' (mem_transformEntries _ listed)
  have named : layer.1 ≠ paddingRule := by
    obtain ⟨number, named⟩ := (mem_expandRule expanded listed).name
    exact named ▸ layerName_ne_paddingRule other number
  have distinct : Program.DistinctNames layer.2.features := by
    intro names counted
    rw [← features_transform (keepsFeatures_cutLiteral g.uniqueLiterals)] at counted
    obtain ⟨entries⟩ := flat'
    have feature := mem_featuresEntries.mpr ⟨_, moved, fun padding => named padding.1, counted⟩
    exact (features_eliminateStacks flattens _ (.tail _ feature)).1
  obtain ⟨entries⟩ := flat'
  obtain ⟨padding, -, built⟩ := Except.bind_eq_ok built
  have here := tryBuild_of_tryEntries built moved named
  exact spares_of_tryBuild _ _ _ _ here distinct level inside

theorem sparesPadding_of_compile {validate : Bool} {p : Parsers} (compiled : g.compile ⟨validate, true⟩ = .ok p) :
    g.SparesPadding := by
  obtain ⟨_, -, compiled⟩ := Except.bind_eq_ok compiled
  obtain ⟨flat', flattens, compiled⟩ := Except.bind_eq_ok compiled
  obtain ⟨program, made, -⟩ := Except.bind_eq_ok compiled
  have flattens : g.withCutpoints.eliminateStacks = .ok flat' := Except.mapError_eq_ok flattens
  have distinct : Program.DistinctNames flat'.features := fun names member =>
    (features_eliminateStacks flattens _ member).1
  refine sparesPadding_of_tryCompile flattens ?_
  rw [← Program.ofGrammar_tryCompile distinct, made]
  rfl

end Necessity

/-- Where local padding rules exempt no literal that gets a cutpoint, automatic cutpoints do not change whether a
grammar compiles, nor with which error it does not.  Where they do, it does not compile with automatic cutpoints. -/
theorem compile_autoCutpoints (validate : Bool) (g : Grammar) :
    (g.SparesPadding →
      Except.outcome (g.compile ⟨validate, true⟩) = Except.outcome (g.compile ⟨validate, false⟩)) ∧
    ((∃ p, g.compile ⟨validate, true⟩ = .ok p) ↔ (∃ p, g.compile ⟨validate, false⟩ = .ok p) ∧ g.SparesPadding) := by
  have sufficient (spares : g.SparesPadding) := (compile_paired spares validate).outcome_eq
  refine ⟨sufficient, ?_, ?_⟩
  · rintro ⟨p, compiled⟩
    have spares := sparesPadding_of_compile compiled
    refine ⟨Except.outcome_eq_ok.mp ?_, spares⟩
    rw [← sufficient spares, compiled]
    rfl
  · rintro ⟨compiles, spares⟩
    rw [← Except.outcome_eq_ok, sufficient spares]
    exact Except.outcome_eq_ok.mpr compiles

/-- A rule with a table of its own that has only a padding rule, which exempts a letter. -/
def exempting (letters : Term) : Grammar := .ofList
  [("a", .withRules letters (.ofList [(paddingRule, .choice [.literal "k", .regex "\\s*()"])]))]

/-- A letter that occurs twice gets no cutpoint, so it may be exempt. -/
theorem compile_autoCutpoints_spared : (exempting (.seq [.literal "k", .literal "k"])).SparesPadding ∧
    ∃ p, (exempting (.seq [.literal "k", .literal "k"])).compile ⟨true, true⟩ = .ok p := by
  obtain ⟨-, just⟩ := compile_autoCutpoints true (exempting (.seq [.literal "k", .literal "k"]))
  have spares : (exempting (.seq [.literal "k", .literal "k"])).SparesPadding := by decide +kernel
  have runs : ((exempting (.seq [.literal "k", .literal "k"])).compile ⟨true, false⟩).toOption.any
      (fun _ => true) = true := by
    decide +kernel
  obtain ⟨p, compiled, -⟩ := Except.exists_of_any runs
  exact ⟨spares, just.mpr ⟨⟨p, compiled⟩, spares⟩⟩

/-- A letter that occurs once gets a cutpoint, and with it the padding rule, so the grammar does not compile. -/
theorem compile_autoCutpoints_exempted : ¬(exempting (.literal "k")).SparesPadding ∧
    (∃ p, (exempting (.literal "k")).compile ⟨true, false⟩ = .ok p) ∧
    (exempting (.literal "k")).compile ⟨true, true⟩ = .error (.grammar
      [Padding.refuse (.choice [.cut (.literal "k"), .regex "\\s*()"]) "may only exempt literals and regexes"]) := by
  have runs : ((exempting (.literal "k")).compile ⟨true, false⟩).toOption.any (fun _ => true) = true := by
    decide +kernel
  obtain ⟨p, compiled, -⟩ := Except.exists_of_any runs
  exact ⟨by decide +kernel, ⟨p, compiled⟩, rfl⟩

end Grammar
end GrammarKit
