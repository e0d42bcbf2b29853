/-
Module: GrammarKit.Proofs.RuleEntries
Purpose: Which rules a walk over a tree enters from a term, and at which tree: as a predicate by recursion on the term,
  and as a relation between entries.  Where there is no way to enter rules for ever, no rule leads back to itself in its
  scope before the tree has been opened.
Main exports: Term.Entered, Term.Passes, Term.Enters, Term.entered_iff, RuleEntry.Ends
-/
import Mathlib.Order.WellFounded
import GrammarKit.Proofs.WalkDepth

namespace GrammarKit

/-! ### The rules that are entered -/

namespace Term

section Entered

variable (P : Scope → Term → Tree → Prop)

mutual
/-- What is known wherever a walk over a tree enters a rule: every alternative of a choice may have been taken, and
every item of a sequence may stand at any of its children. -/
def Entered (scope : Scope) : Term → Tree → Prop
  | literal _, _ => True
  | regex _, _ => True
  | backref _ _, _ => True
  | stack _, _ => True
  | rule name, tree => ∀ body inner, scope.find? name = some (body, inner) → P inner body tree
  | capture _ t, tree => Entered scope t tree
  | cut t, tree => Entered scope t tree
  | withRules t rules, tree => Entered (rules :: scope) t tree
  | seq ts, tree =>
      ∀ children, nodeChildren (seq ts) tree = .ok children → ∀ child ∈ children, EnteredAll scope ts child
  | choice ts, tree => ∀ index child, chosen (choice ts) tree = .ok (index, child) → EnteredAll scope ts child
  | quant t min max, tree =>
      ∀ children, nodeChildren (quant t min max) tree = .ok children → ∀ child ∈ children, Entered scope t child
  | list element separator style, tree =>
      ∀ slots, listSlots (list element separator style) tree = .ok slots →
        ∀ slot ∈ slots, Entered scope element slot ∧ Entered scope separator slot

/-- The same of several terms at one tree. -/
def EnteredAll (scope : Scope) : List Term → Tree → Prop
  | [], _ => True
  | t :: ts, tree => Entered scope t tree ∧ EnteredAll scope ts tree
end

end Entered

end Term

/-! ### From rule to rule -/

/-- A rule that a walk enters, and the tree at which it does. -/
structure RuleEntry where
  site : RuleSite
  tree : Tree

namespace Term

/-- A rule that a term leads to before the tree is opened: by its name, through captures, cutpoints and local rules. -/
inductive Passes : Scope → Term → RuleSite → Prop
  | rule {scope : Scope} {name : String} {body : Term} {inner : Scope} (found : scope.find? name = some (body, inner)) :
      Passes scope (rule name) (inner, body)
  | capture {scope : Scope} {name : String} {t : Term} {next : RuleSite} (inside : Passes scope t next) :
      Passes scope (capture name t) next
  | cut {scope : Scope} {t : Term} {next : RuleSite} (inside : Passes scope t next) : Passes scope (cut t) next
  | withRules {scope : Scope} {t : Term} {rules : Grammar} {next : RuleSite} (inside : Passes (rules :: scope) t next) :
      Passes scope (withRules t rules) next

/-- What a walk may enter next from a term at a tree.  The tree is opened by sequences, choices, repetitions and lists;
every alternative of a choice may have been taken, and every item of a sequence may stand at any child. -/
inductive Enters : Scope → Term → Tree → RuleEntry → Prop
  | rule {scope : Scope} {name : String} {body : Term} {inner : Scope} {tree : Tree}
      (found : scope.find? name = some (body, inner)) : Enters scope (rule name) tree ⟨(inner, body), tree⟩
  | capture {scope : Scope} {name : String} {t : Term} {tree : Tree} {next : RuleEntry}
      (inside : Enters scope t tree next) : Enters scope (capture name t) tree next
  | cut {scope : Scope} {t : Term} {tree : Tree} {next : RuleEntry} (inside : Enters scope t tree next) :
      Enters scope (cut t) tree next
  | withRules {scope : Scope} {t : Term} {rules : Grammar} {tree : Tree} {next : RuleEntry}
      (inside : Enters (rules :: scope) t tree next) : Enters scope (withRules t rules) tree next
  | item {scope : Scope} {ts : List Term} {tree : Tree} {children : List Tree} {t : Term} {child : Tree}
      {next : RuleEntry} (opened : nodeChildren (seq ts) tree = .ok children) (term : t ∈ ts)
      (member : child ∈ children) (inside : Enters scope t child next) : Enters scope (seq ts) tree next
  | alternative {scope : Scope} {ts : List Term} {tree : Tree} {index : Nat} {t : Term} {child : Tree}
      {next : RuleEntry} (opened : chosen (choice ts) tree = .ok (index, child)) (term : t ∈ ts)
      (inside : Enters scope t child next) : Enters scope (choice ts) tree next
  | repetition {scope : Scope} {t : Term} {min max : Nat} {tree : Tree} {children : List Tree} {child : Tree}
      {next : RuleEntry} (opened : nodeChildren (quant t min max) tree = .ok children) (member : child ∈ children)
      (inside : Enters scope t child next) : Enters scope (quant t min max) tree next
  | element {scope : Scope} {element separator : Term} {style : ListStyle} {tree : Tree} {slots : List Tree}
      {slot : Tree} {next : RuleEntry} (opened : listSlots (list element separator style) tree = .ok slots)
      (member : slot ∈ slots) (inside : Enters scope element slot next) :
      Enters scope (list element separator style) tree next
  | separator {scope : Scope} {element separator : Term} {style : ListStyle} {tree : Tree} {slots : List Tree}
      {slot : Tree} {next : RuleEntry} (opened : listSlots (list element separator style) tree = .ok slots)
      (member : slot ∈ slots) (inside : Enters scope separator slot next) :
      Enters scope (list element separator style) tree next

variable {P : Scope → Term → Tree → Prop} {scope : Scope} {t : Term} {tree : Tree}

theorem EnteredAll.of_mem {ts : List Term} (entered : EnteredAll P scope ts tree) (member : t ∈ ts) :
    Entered P scope t tree := by
  induction ts with
  | nil => cases member
  | cons first ts ih =>
    rcases List.mem_cons.mp member with rfl | later
    · exact entered.1
    · exact ih entered.2 later

/-- What is known wherever a walk enters a rule is known of all that it may enter. -/
theorem Enters.known {next : RuleEntry} (enters : Enters scope t tree next) (entered : Entered P scope t tree) :
    P next.site.1 next.site.2 next.tree := by
  induction enters with
  | rule found => exact entered _ _ found
  | capture _ ih | cut _ ih | withRules _ ih => exact ih entered
  | item opened term member _ ih => exact ih ((entered _ opened _ member).of_mem term)
  | alternative opened term _ ih => exact ih ((entered _ _ opened).of_mem term)
  | repetition opened member _ ih => exact ih (entered _ opened _ member)
  | element opened member _ ih => exact ih (entered _ opened _ member).1
  | separator opened member _ ih => exact ih (entered _ opened _ member).2

mutual
/-- What is known of all that a walk may enter is known wherever it enters a rule. -/
theorem entered_of_enters : ∀ (t : Term) {scope : Scope} {tree : Tree},
    (∀ next, Enters scope t tree next → P next.site.1 next.site.2 next.tree) → Entered P scope t tree
  | literal _, _, _, _ => trivial
  | regex _, _, _, _ => trivial
  | backref _ _, _, _, _ => trivial
  | stack _, _, _, _ => trivial
  | rule _, _, tree, known => fun body inner found => known ⟨(inner, body), tree⟩ (.rule found)
  | capture _ t, _, _, known => entered_of_enters t fun next inside => known next (.capture inside)
  | cut t, _, _, known => entered_of_enters t fun next inside => known next (.cut inside)
  | withRules t _, _, _, known => entered_of_enters t fun next inside => known next (.withRules inside)
  | seq ts, _, _, known => fun _ opened _ member =>
    enteredAll_of_enters ts fun _ term next inside => known next (.item opened term member inside)
  | choice ts, _, _, known => fun _ _ opened =>
    enteredAll_of_enters ts fun _ term next inside => known next (.alternative opened term inside)
  | quant t _ _, _, _, known => fun _ opened _ member =>
    entered_of_enters t fun next inside => known next (.repetition opened member inside)
  | list element separator _, _, _, known => fun _ opened _ member =>
    ⟨entered_of_enters element fun next inside => known next (.element opened member inside),
      entered_of_enters separator fun next inside => known next (.separator opened member inside)⟩

theorem enteredAll_of_enters : ∀ (ts : List Term) {scope : Scope} {tree : Tree},
    (∀ t ∈ ts, ∀ next, Enters scope t tree next → P next.site.1 next.site.2 next.tree) → EnteredAll P scope ts tree
  | [], _, _, _ => trivial
  | t :: ts, _, _, known =>
    ⟨entered_of_enters t (known t List.mem_cons_self),
      enteredAll_of_enters ts fun t member => known t (List.mem_cons_of_mem _ member)⟩
end

/-- What is asked wherever a walk enters a rule is asked of just what it may enter. -/
theorem entered_iff : Entered P scope t tree ↔ ∀ next, Enters scope t tree next → P next.site.1 next.site.2 next.tree :=
  ⟨fun entered _ enters => enters.known entered, entered_of_enters t⟩

theorem Entered.mono {Q : Scope → Term → Tree → Prop} (entered : Entered P scope t tree)
    (weaker : ∀ {scope body tree}, P scope body tree → Q scope body tree) : Entered Q scope t tree :=
  entered_iff.mpr fun next enters => weaker (entered_iff.mp entered next enters)

/-- A rule that a term leads to before the tree is opened is entered at that tree. -/
theorem Passes.enters {next : RuleSite} (passes : Passes scope t next) (tree : Tree) :
    Enters scope t tree ⟨next, tree⟩ := by
  induction passes with
  | rule found => exact .rule found
  | capture _ ih => exact .capture ih
  | cut _ ih => exact .cut ih
  | withRules _ ih => exact .withRules ih

end Term

/-- The body of one rule leads to another rule before the tree is opened. -/
def RuleSite.Passes (site next : RuleSite) : Prop :=
  Term.Passes site.1 site.2 next

/-- From the body of a rule that it has entered, a walk may enter the next one. -/
def RuleEntry.Enters (entry next : RuleEntry) : Prop :=
  Term.Enters entry.site.1 entry.site.2 entry.tree next

/-! ### Chains come to an end -/

/-- There is no way to enter rules for ever from here on. -/
abbrev RuleEntry.Ends (entry : RuleEntry) : Prop :=
  Acc (Function.swap RuleEntry.Enters) entry

namespace RuleEntry.Ends

open Relation

variable {entry : RuleEntry}

theorem of_reflTransGen (ends : entry.Ends) {next : RuleEntry} (way : ReflTransGen RuleEntry.Enters entry next) :
    next.Ends := by
  induction way with
  | refl => exact ends
  | tail _ step ih => exact ih.inv step

/-- A rule does not lead back to itself before the tree is opened. -/
theorem not_transGen (ends : entry.Ends) : ¬ TransGen RuleSite.Passes entry.site entry.site := by
  intro circle
  have back : TransGen RuleEntry.Enters entry entry :=
    TransGen.lift (RuleEntry.mk · entry.tree) (fun _ _ passes => passes.enters entry.tree) _ _ circle
  exact (acc_iff_isEmpty_descending_chain.mp ends.transGen).false
    ⟨fun _ => entry, rfl, fun _ => transGen_swap.mpr back⟩

end RuleEntry.Ends

end GrammarKit
