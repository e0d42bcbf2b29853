/-
Module: GrammarKit.Term
Purpose: The terms of which grammars are made, and grammars as tables of rules.
Main exports: Assoc, Term, Grammar, Term.bindingName?, Term.isCut
-/
import GrammarKit.Table

namespace GrammarKit

/-- How a delimited list groups its elements. -/
inductive Assoc where
  | flat
  | leftToRight
  | rightToLeft
deriving Repr, Inhabited, DecidableEq

/-- The operator of a list: how it is written in grammars and trees. -/
def Assoc.operator : Assoc → String
  | .flat => ":"
  | .leftToRight => ":>"
  | .rightToLeft => "<:"

/-- The list that an operator stands for. -/
def Assoc.ofOperator? : String → Option Assoc
  | ":" => some .flat
  | ":>" => some .leftToRight
  | "<:" => some .rightToLeft
  | _ => none

theorem Assoc.ofOperator?_operator (a : Assoc) : ofOperator? a.operator = some a := by
  cases a <;> rfl

/-- A delimited list apart from its terms: how it groups, and whether its first or its last element may be
left out, so that it starts or ends with a separator. -/
structure ListStyle where
  assoc : Assoc := .flat
  leading : Bool := false
  trailing : Bool := false
deriving Repr, Inhabited, DecidableEq

/-- Terms.  The term of a rule says which texts the rule matches and what tree it makes of them. -/
inductive Term where
  /-- Another rule, by name. -/
  | rule (name : String)
  /-- A text as it stands. -/
  | literal (text : String)
  /-- A regular expression. -/
  | regex (pattern : String)
  /-- All items one after the other. -/
  | seq (items : List Term)
  /-- The first alternative that matches. -/
  | choice (alternatives : List Term)
  /-- Layers of precedence, the loosest first; `@` stands for the next layer. -/
  | stack (layers : List Term)
  /-- Elements with separators between them. -/
  | list (element separator : Term) (style : ListStyle)
  /-- At least `min` and at most `max` repetitions; a `max` of zero is no bound. -/
  | quant (term : Term) (min max : Nat)
  /-- A term whose tree is labelled with a name. -/
  | capture (name : String) (term : Term)
  /-- The text that a name was bound to before, or the default where it is not bound. -/
  | backref (name : String) (default : Option Term)
  /-- A term after which no other alternative is tried. -/
  | cut (term : Term)
  /-- A term with rules of its own, which hide rules of the same names. -/
  | withRules (term : Term) (rules : Table Term)

instance : Inhabited Term := ⟨.seq []⟩

/-- A grammar is a table of rules. -/
abbrev Grammar := Table Term

/-- The name that stands for the next layer inside a stack. -/
def placeholder : String := "@"

/-- The rule that is no rule: it gives the padding that may surround terminals. -/
def paddingRule : String := ".wrapRE"

namespace Term

/-- A term that may be missing. -/
def optional (t : Term) : Term := .quant t 0 1

/-- Any number of repetitions. -/
def many (t : Term) : Term := .quant t 0 0

/-- At least one repetition. -/
def many1 (t : Term) : Term := .quant t 1 0

/-! ### Equality -/

mutual
/-- Whether two terms are equal. -/
def same : Term → Term → Bool
  | rule a, rule b => a == b
  | literal a, literal b => a == b
  | regex a, regex b => a == b
  | seq a, seq b => sameList a b
  | choice a, choice b => sameList a b
  | stack a, stack b => sameList a b
  | list e s x, list e' s' x' => same e e' && same s s' && x == x'
  | quant t m n, quant t' m' n' => same t t' && m == m' && n == n'
  | capture a t, capture b t' => a == b && same t t'
  | backref a d, backref b d' => a == b && sameOption d d'
  | cut t, cut t' => same t t'
  | withRules t g, withRules t' g' => same t t' && sameTable g g'
  | _, _ => false
termination_by structural t => t

/-- Whether two lists of terms are equal. -/
def sameList : List Term → List Term → Bool
  | [], [] => true
  | t :: ts, t' :: ts' => same t t' && sameList ts ts'
  | _, _ => false
termination_by structural t => t

/-- Whether two optional terms are equal. -/
def sameOption : Option Term → Option Term → Bool
  | none, none => true
  | some t, some t' => same t t'
  | _, _ => false
termination_by structural t => t

/-- Whether two tables of terms are equal. -/
def sameTable : Table Term → Table Term → Bool
  | ⟨es⟩, ⟨es'⟩ => sameEntries es es'
termination_by structural t => t

/-- Whether two lists of entries are equal. -/
def sameEntries : List (String × Term) → List (String × Term) → Bool
  | [], [] => true
  | (n, t) :: es, (n', t') :: es' => n == n' && same t t' && sameEntries es es'
  | _, _ => false
termination_by structural t => t
end

mutual
theorem same_iff : ∀ a b : Term, same a b = true ↔ a = b
  | rule _, b => by cases b <;> simp [same]
  | literal _, b => by cases b <;> simp [same]
  | regex _, b => by cases b <;> simp [same]
  | seq a, b => by cases b <;> simp [same, sameList_iff a]
  | choice a, b => by cases b <;> simp [same, sameList_iff a]
  | stack a, b => by cases b <;> simp [same, sameList_iff a]
  | list e s _, b => by cases b <;> simp [same, same_iff e, same_iff s, and_assoc]
  | quant t _ _, b => by cases b <;> simp [same, same_iff t, and_assoc]
  | capture _ t, b => by cases b <;> simp [same, same_iff t]
  | backref _ d, b => by cases b <;> simp [same, sameOption_iff d]
  | cut t, b => by cases b <;> simp [same, same_iff t]
  | withRules t g, b => by cases b <;> simp [same, same_iff t, sameTable_iff g]

theorem sameList_iff : ∀ a b : List Term, sameList a b = true ↔ a = b
  | [], b => by cases b <;> simp [sameList]
  | t :: ts, b => by cases b <;> simp [sameList, same_iff t, sameList_iff ts]

theorem sameOption_iff : ∀ a b : Option Term, sameOption a b = true ↔ a = b
  | none, b => by cases b <;> simp [sameOption]
  | some t, b => by cases b <;> simp [sameOption, same_iff t]

theorem sameTable_iff : ∀ a b : Table Term, sameTable a b = true ↔ a = b
  | ⟨es⟩, ⟨es'⟩ => by simp [sameTable, sameEntries_iff es]

theorem sameEntries_iff : ∀ a b : List (String × Term), sameEntries a b = true ↔ a = b
  | [], b => by cases b <;> simp [sameEntries]
  | (_, t) :: es, b => by
    cases b with
    | nil => simp [sameEntries]
    | cons e es' => obtain ⟨_, _⟩ := e; simp [sameEntries, same_iff t, sameEntries_iff es, and_assoc]
end

instance : DecidableEq Term := fun a b =>
  decidable_of_iff (same a b = true) (same_iff a b)

/-! ### Names -/

/-- The name to which a sequence binds what an item matched: that of the capture, or of the rule, also
under repetitions. -/
def bindingName? : Term → Option String
  | capture name t => if name ≠ "" then some name else t.bindingName?
  | rule name => some name
  | quant t _ _ => t.bindingName?
  | _ => none

/-- Whether a term is a cutpoint, looking through captures. -/
def isCut : Term → Bool
  | cut _ => true
  | capture _ t => t.isCut
  | _ => false

end Term
end GrammarKit
