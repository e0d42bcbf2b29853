/-
Module: GrammarKit.Proofs.LiteralCounts
Purpose: How often a text occurs as a literal in a grammar, against the literals that become cutpoints by
  themselves.  Local rules hand out those literals only that occur once among them, so a text that occurs twice in
  one place further in counts for nothing there; for all other texts the literals taken for unique are those that
  occur once in the whole grammar.
Main exports: Grammar.allLiterals, Grammar.Repeats, Term.count_literals, Grammar.mem_uniqueLiterals_of_once,
  Grammar.uniqueLiterals_once
-/
import Mathlib.Tactic.Common
import GrammarKit.Proofs.Features

namespace GrammarKit

/-- What was inserted one after the other has become the names of the table. -/
theorem Table.mem_names_ofList {α : Type} {name : String} {entries : List (String × α)} :
    name ∈ (ofList entries).names ↔ name ∈ entries.map (·.1) := by
  suffices grown : ∀ t : Table α, name ∈ (entries.foldl (fun t (name, value) => t.insert name value) t).names ↔
      name ∈ t.names ∨ name ∈ entries.map (·.1) by
    simpa [ofList, names, empty] using grown empty
  induction entries with
  | nil => simp
  | cons entry entries ih =>
    intro t
    have inserted : name ∈ (t.insert entry.1 entry.2).names ↔ name ∈ t.names ∨ name = entry.1 := by
      rw [names, names, ← lookup_isSome, ← lookup_isSome]
      by_cases same : name = entry.1
      · simp [same, insert, lookup_insertEntry_self]
      · simp [same, insert, lookup_insertEntry_of_ne same]
    rw [List.foldl_cons, ih, inserted, List.map_cons, List.mem_cons, or_assoc]

namespace Term

/-! ### Literals of all scopes -/

mutual
/-- All literals of a term, those of its local rules included.  A separator that may also lead its list counts
twice; padding rules are left out. -/
def allLiterals : Term → List String
  | rule _ => []
  | literal text => [text]
  | regex _ => []
  | seq ts => allLiteralsAll ts
  | choice ts => allLiteralsAll ts
  | stack ts => allLiteralsAll ts
  | list element separator style =>
      allLiterals element ++ allLiterals separator ++ (if style.leading then allLiterals separator else [])
  | quant t _ _ => allLiterals t
  | capture _ t => allLiterals t
  | backref _ default => allLiteralsDefault default
  | cut t => allLiterals t
  | withRules t rules => allLiterals t ++ allLiteralsTable rules

/-- All literals of several terms. -/
def allLiteralsAll : List Term → List String
  | [] => []
  | t :: ts => allLiterals t ++ allLiteralsAll ts

/-- All literals of a default. -/
def allLiteralsDefault : Option Term → List String
  | none => []
  | some t => allLiterals t

/-- All literals of the rules of a table. -/
def allLiteralsTable : Table Term → List String
  | ⟨entries⟩ => allLiteralsEntries entries

/-- All literals of the rules among some entries. -/
def allLiteralsEntries : List (String × Term) → List String
  | [] => []
  | (name, t) :: entries =>
      (if name = paddingRule then [] else allLiterals t) ++ allLiteralsEntries entries
end

section Repeats

variable (text : String)

mutual
/-- Whether a text occurs more than once in the local rules at some place of a term.  What is repeated still
further in is repeated there as well. -/
def repeats : Term → Bool
  | rule _ => false
  | literal _ => false
  | regex _ => false
  | seq ts => repeatsAny ts
  | choice ts => repeatsAny ts
  | stack ts => repeatsAny ts
  | list element separator _ => repeats element || repeats separator
  | quant t _ _ => repeats t
  | capture _ t => repeats t
  | backref _ default => repeatsDefault default
  | cut t => repeats t
  | withRules t rules => repeats t || 1 < (allLiteralsTable rules).count text

/-- Whether a text is repeated in the local rules of some of several terms. -/
def repeatsAny : List Term → Bool
  | [] => false
  | t :: ts => repeats t || repeatsAny ts

/-- Whether a text is repeated in the local rules of a default. -/
def repeatsDefault : Option Term → Bool
  | none => false
  | some t => repeats t
end

variable {text}

mutual
/-- A text repeated in local rules occurs more than once. -/
theorem one_lt_count_allLiterals : ∀ {t : Term}, t.repeats text → 1 < t.allLiterals.count text
  | seq ts, h => @one_lt_count_allLiteralsAll ts h
  | choice ts, h => @one_lt_count_allLiteralsAll ts h
  | stack ts, h => @one_lt_count_allLiteralsAll ts h
  | list element separator _, h => by
    rw [allLiterals, List.count_append, List.count_append]
    rcases Bool.or_eq_true_iff.mp h with h | h
    · have := one_lt_count_allLiterals h
      omega
    · have := one_lt_count_allLiterals h
      omega
  | quant t _ _, h => one_lt_count_allLiterals (t := t) h
  | capture _ t, h => one_lt_count_allLiterals (t := t) h
  | backref _ (some t), h => one_lt_count_allLiterals (t := t) h
  | cut t, h => one_lt_count_allLiterals (t := t) h
  | withRules t rules, h => by
    rw [allLiterals, List.count_append]
    rcases Bool.or_eq_true_iff.mp h with h | h
    · have := one_lt_count_allLiterals h
      omega
    · have := of_decide_eq_true h
      omega

theorem one_lt_count_allLiteralsAll : ∀ {ts : List Term}, repeatsAny text ts → 1 < (allLiteralsAll ts).count text
  | t :: ts, h => by
    rw [allLiteralsAll, List.count_append]
    rcases Bool.or_eq_true_iff.mp h with h | h
    · have := one_lt_count_allLiterals h
      omega
    · have := one_lt_count_allLiteralsAll h
      omega
end

theorem count_allLiterals_le {entry : String × Term} (taken : entry.1 ≠ paddingRule) :
    ∀ {entries : List (String × Term)}, entry ∈ entries →
      entry.2.allLiterals.count text ≤ (allLiteralsEntries entries).count text
  | first :: entries, member => by
    rw [allLiteralsEntries, List.count_append]
    rcases List.mem_cons.mp member with rfl | member
    · rw [if_neg taken]
      omega
    · have := count_allLiterals_le taken member
      omega

/-- Among rules where a text occurs at most once, no local rules repeat it. -/
theorem repeats_of_count_le {entries : List (String × Term)} (few : (allLiteralsEntries entries).count text ≤ 1) :
    ∀ entry ∈ entries, entry.1 ≠ paddingRule → entry.2.repeats text = false := by
  intro entry member taken
  by_contra repeated
  have more := one_lt_count_allLiterals (Bool.not_eq_false _ ▸ repeated)
  have here : entry.2.allLiterals.count text ≤ (allLiteralsEntries entries).count text :=
    count_allLiterals_le taken member
  omega

/-- Keeping what stands once in a list. -/
theorem count_filter_once {α : Type} [DecidableEq α] (x : α) (xs : List α) :
    (xs.filter fun y => xs.count y == 1).count x = if xs.count x = 1 then 1 else 0 := by
  split
  · next once => rw [List.count_filter (by simpa using once), once]
  · next other =>
    rw [List.count_eq_zero]
    intro kept
    exact other (by simpa using (List.mem_filter.mp kept).2)

mutual
/-- Where no local rules repeat a text, its literals count as often as they occur. -/
theorem count_literals : ∀ {t : Term}, t.repeats text = false → t.literals.count text = t.allLiterals.count text
  | rule _, _ => rfl
  | literal _, _ => rfl
  | regex _, _ => rfl
  | seq ts, h => @count_literalsAll ts h
  | choice ts, h => @count_literalsAll ts h
  | stack ts, h => @count_literalsAll ts h
  | list element separator style, h => by
    obtain ⟨first, second⟩ := Bool.or_eq_false_iff.mp h
    have separators := count_literals second
    rw [literals, allLiterals, List.count_append, List.count_append, List.count_append, List.count_append,
      count_literals first, separators]
    split
    · rw [separators]
    · rfl
  | quant t _ _, h => count_literals (t := t) h
  | capture _ t, h => count_literals (t := t) h
  | backref _ none, _ => rfl
  | backref _ (some t), h => count_literals (t := t) h
  | cut t, h => count_literals (t := t) h
  | withRules t ⟨entries⟩, h => by
    obtain ⟨here, few⟩ := Bool.or_eq_false_iff.mp h
    have few : (allLiteralsEntries entries).count text ≤ 1 := Nat.not_lt.mp (of_decide_eq_false few)
    have inside := count_literalsEntries (repeats_of_count_le few)
    rw [literals, allLiterals, List.count_append, List.count_append, count_literals here, uniqueLiteralsTable,
      count_filter_once, inside, allLiteralsTable]
    split <;> omega

theorem count_literalsAll : ∀ {ts : List Term}, repeatsAny text ts = false →
    (literalsAll ts).count text = (allLiteralsAll ts).count text
  | [], _ => rfl
  | t :: ts, h => by
    obtain ⟨first, others⟩ := Bool.or_eq_false_iff.mp h
    rw [literalsAll, allLiteralsAll, List.count_append, List.count_append, count_literals first,
      count_literalsAll others]

theorem count_literalsEntries : ∀ {entries : List (String × Term)},
    (∀ entry ∈ entries, entry.1 ≠ paddingRule → entry.2.repeats text = false) →
    (literalsEntries entries).count text = (allLiteralsEntries entries).count text
  | [], _ => rfl
  | (name, t) :: entries, h => by
    obtain ⟨first, others⟩ := List.forall_mem_cons.mp h
    rw [literalsEntries, allLiteralsEntries, List.count_append, List.count_append, count_literalsEntries others]
    split
    · rfl
    · next taken => rw [count_literals (first taken)]
end

end Repeats

/-! ### Cutpoints around literals -/

/-- The text of a literal. -/
def text? : Term → Option String
  | literal text => some text
  | _ => none

mutual
/-- The literals that stand directly in a cutpoint, those of local rules included. -/
def cutLiterals : Term → List String
  | rule _ => []
  | literal _ => []
  | regex _ => []
  | seq ts => cutLiteralsAll ts
  | choice ts => cutLiteralsAll ts
  | stack ts => cutLiteralsAll ts
  | list element separator _ => cutLiterals element ++ cutLiterals separator
  | quant t _ _ => cutLiterals t
  | capture _ t => cutLiterals t
  | backref _ default => cutLiteralsDefault default
  | cut t => t.text?.toList ++ cutLiterals t
  | withRules t rules => cutLiterals t ++ cutLiteralsTable rules

/-- The literals in cutpoints of several terms. -/
def cutLiteralsAll : List Term → List String
  | [] => []
  | t :: ts => cutLiterals t ++ cutLiteralsAll ts

/-- The literals in cutpoints of a default. -/
def cutLiteralsDefault : Option Term → List String
  | none => []
  | some t => cutLiterals t

/-- The literals in cutpoints of the rules of a table. -/
def cutLiteralsTable : Table Term → List String
  | ⟨entries⟩ => cutLiteralsEntries entries

/-- The literals in cutpoints of the rules among some entries. -/
def cutLiteralsEntries : List (String × Term) → List String
  | [] => []
  | (_, t) :: entries => cutLiterals t ++ cutLiteralsEntries entries
end

section Other

variable {text : String} {unique : List String}

/-- Cutpoints around other literals, and one cutpoint instead of two, are none around the literals of a text. -/
theorem count_cutLiterals_cutLiteral (other : text ∉ unique) (t : Term) :
    (cutLiteral unique t).cutLiterals.count text = t.cutLiterals.count text := by
  unfold cutLiteral
  split
  · next found =>
    split
    · next taken =>
      have different : found ≠ text := by
        rintro rfl
        exact other (by simpa using taken)
      simp [cutLiterals, text?, different]
    · rfl
  · simp [cutLiterals, text?]
  · rfl

/-- Literals of other texts and of this one remain apart. -/
theorem count_text?_transform (other : text ∉ unique) (t : Term) :
    (t.transform (cutLiteral unique)).text?.toList.count text = t.text?.toList.count text := by
  cases t with
  | literal found =>
    rw [transform, cutLiteral]
    split
    · next taken =>
      have different : found ≠ text := by
        rintro rfl
        exact other (by simpa using taken)
      simp [text?, different]
    · rfl
  | cut t =>
    rw [transform]
    generalize t.transform (cutLiteral unique) = u
    cases u <;> rfl
  | _ => rfl

mutual
theorem count_cutLiterals_transform (other : text ∉ unique) : ∀ t : Term,
    (t.transform (cutLiteral unique)).cutLiterals.count text = t.cutLiterals.count text
  | rule _ => count_cutLiterals_cutLiteral other _
  | literal _ => count_cutLiterals_cutLiteral other _
  | regex _ => count_cutLiterals_cutLiteral other _
  | seq ts => (count_cutLiterals_cutLiteral other _).trans (count_cutLiterals_transformAll other ts)
  | choice ts => (count_cutLiterals_cutLiteral other _).trans (count_cutLiterals_transformAll other ts)
  | stack ts => (count_cutLiterals_cutLiteral other _).trans (count_cutLiterals_transformAll other ts)
  | list element separator _ => by
    rw [transform, count_cutLiterals_cutLiteral other, cutLiterals, cutLiterals, List.count_append,
      List.count_append, count_cutLiterals_transform other element, count_cutLiterals_transform other separator]
  | quant t _ _ => (count_cutLiterals_cutLiteral other _).trans (count_cutLiterals_transform other t)
  | capture _ t => (count_cutLiterals_cutLiteral other _).trans (count_cutLiterals_transform other t)
  | backref _ none => count_cutLiterals_cutLiteral other _
  | backref _ (some t) => (count_cutLiterals_cutLiteral other _).trans (count_cutLiterals_transform other t)
  | cut t => by
    rw [transform, count_cutLiterals_cutLiteral other, cutLiterals, cutLiterals, List.count_append,
      List.count_append, count_text?_transform other t, count_cutLiterals_transform other t]
  | withRules t ⟨entries⟩ => by
    rw [transform, count_cutLiterals_cutLiteral other, cutLiterals, cutLiterals, List.count_append,
      List.count_append, count_cutLiterals_transform other t, transformTable, cutLiteralsTable, cutLiteralsTable,
      count_cutLiterals_transformEntries other entries]

theorem count_cutLiterals_transformAll (other : text ∉ unique) : ∀ ts : List Term,
    (cutLiteralsAll (transformAll (cutLiteral unique) ts)).count text = (cutLiteralsAll ts).count text
  | [] => rfl
  | t :: ts => by
    rw [transformAll, cutLiteralsAll, cutLiteralsAll, List.count_append, List.count_append,
      count_cutLiterals_transform other t, count_cutLiterals_transformAll other ts]

theorem count_cutLiterals_transformEntries (other : text ∉ unique) : ∀ entries : List (String × Term),
    (cutLiteralsEntries (transformEntries (cutLiteral unique) entries)).count text
      = (cutLiteralsEntries entries).count text
  | [] => rfl
  | (_, t) :: entries => by
    rw [transformEntries, cutLiteralsEntries, cutLiteralsEntries, List.count_append, List.count_append,
      count_cutLiterals_transform other t, count_cutLiterals_transformEntries other entries]
end

end Other
end Term

namespace Grammar

open Term

/-- All literals of a grammar, those of local rules included. -/
def allLiterals (g : Grammar) : List String :=
  allLiteralsTable g

/-- The literals of a grammar that stand directly in a cutpoint, those of local rules included. -/
def cutLiterals (g : Grammar) : List String :=
  cutLiteralsTable g

/-- A text occurs more than once among the local rules at some place of a grammar. -/
def Repeats (g : Grammar) (text : String) : Prop :=
  ∃ entry ∈ g.entries, entry.1 ≠ paddingRule ∧ entry.2.repeats text

variable {g : Grammar} {text : String}

theorem mem_uniqueLiterals_iff_count : text ∈ g.uniqueLiterals ↔ (literalsEntries g.entries).count text = 1 := by
  rw [uniqueLiterals, Table.mem_names_ofList, List.map_map, uniqueLiteralsTable]
  simp only [Function.comp_def, List.map_id', List.mem_filter, beq_iff_eq, and_iff_right_iff_imp]
  intro once
  exact List.count_pos_iff.mp (once ▸ Nat.one_pos)

theorem mem_uniqueLiterals_iff (fair : ¬ g.Repeats text) :
    text ∈ g.uniqueLiterals ↔ g.allLiterals.count text = 1 := by
  obtain ⟨entries⟩ := g
  have calm : ∀ entry ∈ entries, entry.1 ≠ paddingRule → entry.2.repeats text = false := by
    intro entry member taken
    by_contra repeated
    exact fair ⟨entry, member, taken, Bool.not_eq_false _ ▸ repeated⟩
  rw [mem_uniqueLiterals_iff_count, count_literalsEntries calm]
  rfl

/-- A literal that occurs once in the whole grammar is found to be unique. -/
theorem mem_uniqueLiterals_of_once (once : g.allLiterals.count text = 1) : text ∈ g.uniqueLiterals := by
  obtain ⟨entries⟩ := g
  refine (mem_uniqueLiterals_iff ?_).mpr once
  rintro ⟨entry, member, taken, repeated⟩
  have calm := repeats_of_count_le (Nat.le_of_eq once) entry member taken
  rw [repeated] at calm
  cases calm

/-- A text that is not unique gets no cutpoint that it did not have. -/
theorem count_cutLiterals_withCutpoints (other : text ∉ g.uniqueLiterals) :
    g.withCutpoints.cutLiterals.count text = g.cutLiterals.count text := by
  obtain ⟨entries⟩ := g
  simp only [cutLiterals, withCutpoints, cutLiteralsTable]
  generalize uniqueLiterals ⟨entries⟩ = unique at other
  induction entries with
  | nil => rfl
  | cons entry entries ih =>
    rw [List.map_cons, cutLiteralsEntries, cutLiteralsEntries, List.count_append, List.count_append, ih]
    split
    · rfl
    · rw [count_cutLiterals_transform other]

/-- A text that no local rules repeat is found to be unique if and only if it occurs once as a literal in the whole
grammar, and if it occurs more than once, then no cutpoint is made of a literal of this text. -/
theorem uniqueLiterals_once (fair : ¬ g.Repeats text) :
    (text ∈ g.uniqueLiterals ↔ g.allLiterals.count text = 1) ∧
      (1 < g.allLiterals.count text →
        g.withCutpoints.cutLiterals.count text = g.cutLiterals.count text) := by
  have unique := mem_uniqueLiterals_iff fair
  refine ⟨unique, fun more => count_cutLiterals_withCutpoints fun taken => ?_⟩
  have once := unique.mp taken
  omega

/-- In `a -> "k" ("," | b) { b -> "," "m"; };` no text is repeated further in, and the comma that stands in both
scopes gets no cutpoint. -/
theorem uniqueLiterals_once_twoScopes :
    let g : Grammar := ⟨[("a", .seq [.literal "k", .withRules (.choice [.literal ",", .rule "b"])
      ⟨[("b", .seq [.literal ",", .literal "m"])]⟩])]⟩
    ¬ g.Repeats "," ∧ ("," ∈ g.uniqueLiterals ↔ g.allLiterals.count "," = 1) ∧
      (1 < g.allLiterals.count "," → g.withCutpoints.cutLiterals.count "," = g.cutLiterals.count ",") := by
  intro g
  have fair : ¬ g.Repeats "," := by
    rintro ⟨entry, member, -, repeated⟩
    obtain rfl := List.mem_singleton.mp member
    cases repeated
  exact ⟨fair, uniqueLiterals_once fair⟩

/-- In `a -> "k" b { b -> "k" "k"; };` the text `k` occurs three times and is found to be unique all the same:
the local rules repeat it and count for nothing.  All three literals become cutpoints. -/
theorem uniqueLiterals_repeated :
    let g : Grammar := ⟨[("a", .seq [.literal "k", .withRules (.rule "b")
      ⟨[("b", .seq [.literal "k", .literal "k"])]⟩])]⟩
    "k" ∈ g.uniqueLiterals ∧ g.allLiterals.count "k" = 3 ∧ g.cutLiterals.count "k" = 0 ∧
      g.withCutpoints.cutLiterals.count "k" = 3 := by
  decide +kernel

end Grammar
end GrammarKit
