/-
Module: GrammarKit.Proofs.UnfoldedLists
Purpose: What delimited lists stand for.  A list can be written out as an ordered choice of sequences, in which the
  elements after the first one are a repetition of pairs.  Grammars that differ in lists that are written out have
  the same names, stacks and paddings, and so do the grammars without stacks that are made of them.
Main exports: Term.unfoldedList, Term.Unfolds, Grammar.Unfolds, Grammar.unfolds_eliminateStacks
-/
import Mathlib.Tactic.Common
import GrammarKit.Proofs.Expansion
import GrammarKit.Proofs.Layout
import GrammarKit.Proofs.Mentions

namespace GrammarKit
namespace Term

/-! ### Lists written out -/

/-- What follows the first element of a list: pairs of a separator and an element, and then perhaps one more
separator. -/
def listRest (element separator : Term) (trailing : Bool) : List Term :=
  many (seq [separator, element]) :: if trailing then [optional separator] else []

/-- A list written out.  It begins with an element, or else with a separator and an element if it may. -/
def unfoldedList (element separator : Term) (style : ListStyle) : Term :=
  choice (seq (element :: listRest element separator style.trailing) ::
    if style.leading then [seq (separator :: element :: listRest element separator style.trailing)] else [])

mutual
/-- The second term is the first one with some of its lists written out, or none, or all. -/
def Unfolds : Term → Term → Prop
  | rule name, u => u = rule name
  | literal text, u => u = literal text
  | regex pattern, u => u = regex pattern
  | seq ts, u => ∃ us, u = seq us ∧ UnfoldsAll ts us
  | choice ts, u => ∃ us, u = choice us ∧ UnfoldsAll ts us
  | stack ts, u => ∃ us, u = stack us ∧ UnfoldsAll ts us
  | list element separator style, u => ∃ element' separator', Unfolds element element' ∧ Unfolds separator separator' ∧
      (u = list element' separator' style ∨ u = unfoldedList element' separator' style)
  | quant t min max, u => ∃ t', u = quant t' min max ∧ Unfolds t t'
  | capture name t, u => ∃ t', u = capture name t' ∧ Unfolds t t'
  | backref name default, u => ∃ default', u = backref name default' ∧ UnfoldsDefault default default'
  | cut t, u => ∃ t', u = cut t' ∧ Unfolds t t'
  | withRules t rules, u => ∃ t' rules', u = withRules t' rules' ∧ Unfolds t t' ∧ UnfoldsTable rules rules'
termination_by structural t => t

/-- Terms that are others one by one, with some of their lists written out. -/
def UnfoldsAll : List Term → List Term → Prop
  | [], [] => True
  | t :: ts, u :: us => Unfolds t u ∧ UnfoldsAll ts us
  | _, _ => False
termination_by structural t => t

/-- A default that is another one with some of its lists written out. -/
def UnfoldsDefault : Option Term → Option Term → Prop
  | none, none => True
  | some t, some u => Unfolds t u
  | _, _ => False
termination_by structural t => t

/-- A table of rules that is another one with some of its lists written out. -/
def UnfoldsTable : Table Term → Table Term → Prop
  | ⟨entries⟩, ⟨entries'⟩ => UnfoldsEntries entries entries'
termination_by structural t => t

/-- Rules of the same names, with some of their lists written out. -/
def UnfoldsEntries : List (String × Term) → List (String × Term) → Prop
  | [], [] => True
  | (name, t) :: entries, (name', u) :: entries' => name' = name ∧ Unfolds t u ∧ UnfoldsEntries entries entries'
  | _, _ => False
termination_by structural t => t
end

theorem Unfolds.isStack {t u : Term} (h : t.Unfolds u) : u.isStack = t.isStack := by
  cases t with
  | rule _ | literal _ | regex _ =>
    obtain rfl := h
    rfl
  | list _ _ _ =>
    obtain ⟨_, _, -, -, rfl | rfl⟩ := h <;> rfl
  | withRules _ _ =>
    obtain ⟨_, _, rfl, -⟩ := h
    rfl
  | seq _ | choice _ | stack _ | quant _ _ _ | capture _ _ | backref _ _ | cut _ =>
    obtain ⟨_, rfl, -⟩ := h
    rfl

theorem Unfolds.isCut {t u : Term} (h : t.Unfolds u) : u.isCut = t.isCut := by
  cases t with
  | rule _ | literal _ | regex _ =>
    obtain rfl := h
    rfl
  | list _ _ _ =>
    obtain ⟨_, _, -, -, rfl | rfl⟩ := h <;> rfl
  | withRules _ _ =>
    obtain ⟨_, _, rfl, -⟩ := h
    rfl
  | capture _ t =>
    obtain ⟨_, rfl, inner⟩ := h
    exact inner.isCut
  | seq _ | choice _ | stack _ | quant _ _ _ | backref _ _ | cut _ =>
    obtain ⟨_, rfl, -⟩ := h
    rfl

theorem isCut_listRest (element separator : Term) (trailing : Bool) :
    ∀ t ∈ listRest element separator trailing, t.isCut = false := by
  rw [listRest, List.forall_mem_cons]
  refine ⟨rfl, ?_⟩
  split
  · exact List.forall_mem_singleton.mpr rfl
  · exact List.forall_mem_nil _

theorem UnfoldsAll.length_eq : ∀ {ts us : List Term}, UnfoldsAll ts us → us.length = ts.length
  | [], [], _ => rfl
  | _ :: _, _ :: _, ⟨_, others⟩ => congrArg (· + 1) others.length_eq

theorem UnfoldsEntries.names : ∀ {entries entries' : List (String × Term)}, UnfoldsEntries entries entries' →
    entries'.map (·.1) = entries.map (·.1)
  | [], [], _ => rfl
  | (_, _) :: _, (_, _) :: _, ⟨same, _, others⟩ => congrArg₂ List.cons same others.names

/-- A name has no term on both sides, or one that is the other with lists written out. -/
theorem UnfoldsEntries.lookup (name : String) : ∀ {entries entries' : List (String × Term)},
    UnfoldsEntries entries entries' → Option.Rel Unfolds (Table.lookup name entries) (Table.lookup name entries')
  | [], [], _ => .none
  | (other, _) :: _, (_, _) :: _, ⟨rfl, here, others⟩ => by
    rw [Table.lookup, Table.lookup]
    split
    · exact .some here
    · exact others.lookup name

/-! ### Mentions -/

section Mentions

variable {holds : Mention → Prop}

theorem forall_mentionsAll {ts : List Term} :
    (∀ m ∈ mentionsAll ts, holds m) ↔ ∀ t ∈ ts, ∀ m ∈ t.mentions, holds m := by
  induction ts with
  | nil => exact ⟨fun _ => List.forall_mem_nil _, fun _ => List.forall_mem_nil _⟩
  | cons t ts ih => rw [mentionsAll, List.forall_mem_append, List.forall_mem_cons, ih]

theorem mentions_unfoldedList {element separator : Term} (style : ListStyle)
    (first : ∀ m ∈ element.mentions, holds m) (second : ∀ m ∈ separator.mentions, holds m) :
    ∀ m ∈ (unfoldedList element separator style).mentions, holds m := by
  have pair : ∀ m ∈ (many (seq [separator, element])).mentions, holds m :=
    forall_mentionsAll.mpr (List.forall_mem_cons.mpr ⟨second, List.forall_mem_singleton.mpr first⟩)
  have rest : ∀ t ∈ listRest element separator style.trailing, ∀ m ∈ t.mentions, holds m := by
    rw [listRest, List.forall_mem_cons]
    refine ⟨pair, ?_⟩
    split
    · exact List.forall_mem_singleton.mpr second
    · exact List.forall_mem_nil _
  have starting : ∀ m ∈ (seq (element :: listRest element separator style.trailing)).mentions, holds m :=
    forall_mentionsAll.mpr (List.forall_mem_cons.mpr ⟨first, rest⟩)
  refine forall_mentionsAll.mpr (List.forall_mem_cons.mpr ⟨starting, ?_⟩)
  split
  · exact List.forall_mem_singleton.mpr
      (forall_mentionsAll.mpr (List.forall_mem_cons.mpr ⟨second, List.forall_mem_cons.mpr ⟨first, rest⟩⟩))
  · exact List.forall_mem_nil _

mutual
/-- Writing lists out mentions nothing new. -/
theorem Unfolds.mentions : ∀ {t u : Term}, t.Unfolds u → (∀ m ∈ t.mentions, holds m) → ∀ m ∈ u.mentions, holds m
  | rule _, _, rfl, known => known
  | literal _, _, rfl, known => known
  | regex _, _, rfl, known => known
  | seq _, _, ⟨_, rfl, each⟩, known => UnfoldsAll.mentions each known
  | choice _, _, ⟨_, rfl, each⟩, known => UnfoldsAll.mentions each known
  | stack _, _, ⟨_, rfl, each⟩, known => UnfoldsAll.mentions each known
  | list element separator style, _, ⟨_, _, first, second, same⟩, known => by
    rw [Term.mentions, List.forall_mem_append] at known
    have first := Unfolds.mentions first known.1
    have second := Unfolds.mentions second known.2
    rcases same with rfl | rfl
    · rw [Term.mentions, List.forall_mem_append]
      exact ⟨first, second⟩
    · exact mentions_unfoldedList style first second
  | quant t _ _, _, ⟨t', rfl, inner⟩, known => Unfolds.mentions (t := t) (u := t') inner known
  | capture _ t, _, ⟨_, rfl, inner⟩, known => by
    rw [Term.mentions, List.forall_mem_cons] at known ⊢
    exact ⟨known.1, Unfolds.mentions (t := t) inner known.2⟩
  | backref _ none, _, ⟨none, rfl, _⟩, known => known
  | backref _ (some t), _, ⟨some u, rfl, inner⟩, known => by
    rw [Term.mentions, List.forall_mem_cons] at known ⊢
    exact ⟨known.1, Unfolds.mentions (t := t) (u := u) inner known.2⟩
  | cut t, _, ⟨_, rfl, inner⟩, known => by
    rw [Term.mentions, List.forall_mem_cons] at known ⊢
    exact ⟨known.1, Unfolds.mentions (t := t) inner known.2⟩
  | withRules t ⟨entries⟩, _, ⟨_, ⟨entries'⟩, rfl, inner, table⟩, known => by
    have each : UnfoldsEntries entries entries' := table
    rw [Term.mentions, List.forall_mem_append] at known ⊢
    exact ⟨Unfolds.mentions inner known.1, UnfoldsEntries.mentions each known.2⟩

theorem UnfoldsAll.mentions : ∀ {ts us : List Term}, UnfoldsAll ts us → (∀ m ∈ mentionsAll ts, holds m) →
    ∀ m ∈ mentionsAll us, holds m
  | [], [], _, known => known
  | _ :: _, _ :: _, ⟨first, others⟩, known => by
    rw [mentionsAll, List.forall_mem_append] at known ⊢
    exact ⟨Unfolds.mentions first known.1, UnfoldsAll.mentions others known.2⟩

theorem UnfoldsEntries.mentions : ∀ {entries entries' : List (String × Term)}, UnfoldsEntries entries entries' →
    (∀ m ∈ mentionsEntries entries, holds m) → ∀ m ∈ mentionsEntries entries', holds m
  | [], [], _, known => known
  | (_, _) :: _, (_, _) :: _, ⟨rfl, first, others⟩, known => by
    rw [mentionsEntries, List.forall_mem_cons, List.forall_mem_append] at known ⊢
    exact ⟨known.1, Unfolds.mentions first known.2.1, UnfoldsEntries.mentions others known.2.2⟩
end

end Mentions

/-! ### Placeholders -/

/-- Replacing references in a list that is written out. -/
theorem resolve_unfoldedList {old new : String} {element separator u : Term} {style : ListStyle}
    (h : (unfoldedList element separator style).resolve old new = .ok u) :
    ∃ element' separator', element.resolve old new = .ok element' ∧ separator.resolve old new = .ok separator' ∧
      u = unfoldedList element' separator' style := by
  obtain ⟨assoc, leading, trailing⟩ := style
  cases first : element.resolve old new with
  | error e =>
    simp only [unfoldedList, resolve, resolveAll, first, bind, Except.bind, Except.map] at h
    cases h
  | ok element' =>
    cases second : separator.resolve old new with
    | error e =>
      simp only [unfoldedList, listRest, many, resolve, resolveAll, first, second, bind, Except.bind, Except.map] at h
      cases h
    | ok separator' =>
      refine ⟨element', separator', rfl, rfl, ?_⟩
      cases leading <;> cases trailing <;>
      · simp only [unfoldedList, listRest, many, optional, resolve, resolveAll, first, second, bind, Except.bind,
          Except.map, if_true, Bool.false_eq_true, if_false] at h
        exact (Except.ok.inj h).symm

mutual
theorem Unfolds.resolve {old new : String} : ∀ {t u t' u' : Term}, t.Unfolds u → t.resolve old new = .ok t' →
    u.resolve old new = .ok u' → t'.Unfolds u'
  | rule _, _, _, _, rfl, h, h' => by
    cases h
    cases h'
    rfl
  | literal _, _, _, _, rfl, h, h' => by
    cases h
    cases h'
    rfl
  | regex _, _, _, _, rfl, h, h' => by
    cases h
    cases h'
    rfl
  | seq _, _, _, _, ⟨_, rfl, each⟩, h, h' => by
    obtain ⟨_, found, rfl⟩ := Except.map_eq_ok h
    obtain ⟨_, found', rfl⟩ := Except.map_eq_ok h'
    exact ⟨_, rfl, UnfoldsAll.resolve each found found'⟩
  | choice _, _, _, _, ⟨_, rfl, each⟩, h, h' => by
    obtain ⟨_, found, rfl⟩ := Except.map_eq_ok h
    obtain ⟨_, found', rfl⟩ := Except.map_eq_ok h'
    exact ⟨_, rfl, UnfoldsAll.resolve each found found'⟩
  | stack _, _, _, _, _, h, _ => by cases h
  | list _ _ _, _, _, _, ⟨_, _, first, second, same⟩, h, h' => by
    obtain ⟨_, found, h⟩ := Except.bind_eq_ok h
    obtain ⟨_, found', h⟩ := Except.bind_eq_ok h
    cases h
    rcases same with rfl | rfl
    · obtain ⟨_, other, h'⟩ := Except.bind_eq_ok h'
      obtain ⟨_, other', h'⟩ := Except.bind_eq_ok h'
      cases h'
      exact ⟨_, _, Unfolds.resolve first found other, Unfolds.resolve second found' other', .inl rfl⟩
    · obtain ⟨_, _, other, other', rfl⟩ := resolve_unfoldedList h'
      exact ⟨_, _, Unfolds.resolve first found other, Unfolds.resolve second found' other', .inr rfl⟩
  | quant t _ _, _, _, _, ⟨_, rfl, inner⟩, h, h' => by
    obtain ⟨_, found, rfl⟩ := Except.map_eq_ok h
    obtain ⟨_, found', rfl⟩ := Except.map_eq_ok h'
    exact ⟨_, rfl, Unfolds.resolve (t := t) inner found found'⟩
  | capture _ t, _, _, _, ⟨_, rfl, inner⟩, h, h' => by
    obtain ⟨_, found, rfl⟩ := Except.map_eq_ok h
    obtain ⟨_, found', rfl⟩ := Except.map_eq_ok h'
    exact ⟨_, rfl, Unfolds.resolve (t := t) inner found found'⟩
  | backref _ none, _, _, _, ⟨none, rfl, _⟩, h, h' => by
    cases h
    cases h'
    exact ⟨none, rfl, trivial⟩
  | backref _ (some t), _, _, _, ⟨some u, rfl, inner⟩, h, h' => by
    obtain ⟨_, default, rfl⟩ := Except.map_eq_ok h
    obtain ⟨_, found, rfl⟩ := Except.map_eq_ok (x := t.resolve old new) default
    obtain ⟨_, default', rfl⟩ := Except.map_eq_ok h'
    obtain ⟨_, found', rfl⟩ := Except.map_eq_ok (x := u.resolve old new) default'
    exact ⟨_, rfl, Unfolds.resolve (t := t) (u := u) inner found found'⟩
  | cut t, _, _, _, ⟨_, rfl, inner⟩, h, h' => by
    obtain ⟨_, found, rfl⟩ := Except.map_eq_ok h
    obtain ⟨_, found', rfl⟩ := Except.map_eq_ok h'
    exact ⟨_, rfl, Unfolds.resolve (t := t) inner found found'⟩
  | withRules t _, _, _, _, ⟨_, _, rfl, inner, table⟩, h, h' => by
    obtain ⟨_, found, rfl⟩ := Except.map_eq_ok h
    obtain ⟨_, found', rfl⟩ := Except.map_eq_ok h'
    exact ⟨_, _, rfl, Unfolds.resolve inner found found', table⟩

theorem UnfoldsAll.resolve {old new : String} : ∀ {ts us ts' us' : List Term}, UnfoldsAll ts us →
    resolveAll old new ts = .ok ts' → resolveAll old new us = .ok us' → UnfoldsAll ts' us'
  | [], [], _, _, _, h, h' => by
    cases h
    cases h'
    trivial
  | _ :: _, _ :: _, _, _, ⟨first, others⟩, h, h' => by
    obtain ⟨_, found, h⟩ := Except.bind_eq_ok h
    obtain ⟨_, rest, h⟩ := Except.bind_eq_ok h
    cases h
    obtain ⟨_, found', h'⟩ := Except.bind_eq_ok h'
    obtain ⟨_, rest', h'⟩ := Except.bind_eq_ok h'
    cases h'
    exact ⟨Unfolds.resolve first found found', UnfoldsAll.resolve others rest rest'⟩
end

end Term

/-! ### Stacks -/

/-- A grammar that is another one with some of its lists written out, or none, or all. -/
def Grammar.Unfolds (g g' : Grammar) : Prop :=
  Term.UnfoldsTable g g'

namespace Grammar

open Term

theorem unfolds_layerRules {name : String} {count layer : Nat} : ∀ {ts us : List Term}
    {rules rules' : List (String × Term)}, UnfoldsAll ts us → layerRules name count layer ts = .ok rules →
    layerRules name count layer us = .ok rules' → UnfoldsEntries rules rules'
  | [], [], _, _, _, h, h' => by
    cases h
    cases h'
    trivial
  | _ :: _, _ :: _, _, _, ⟨first, others⟩, h, h' => by
    obtain ⟨_, found, h⟩ := Except.bind_eq_ok h
    obtain ⟨_, rest, h⟩ := Except.bind_eq_ok h
    cases h
    obtain ⟨_, found', h'⟩ := Except.bind_eq_ok h'
    obtain ⟨_, rest', h'⟩ := Except.bind_eq_ok h'
    cases h'
    exact ⟨rfl, first.resolve found found', unfolds_layerRules others rest rest'⟩

theorem unfolds_expandRule {name : String} {t u : Term} {rules rules' : List (String × Term)} (unfolds : t.Unfolds u)
    (h : expandRule name t = .ok rules) (h' : expandRule name u = .ok rules') : UnfoldsEntries rules rules' := by
  cases stack : t.isStack with
  | true =>
    obtain ⟨ts, rfl⟩ := exists_stack stack
    obtain ⟨us, rfl, each⟩ := unfolds
    rw [expandRule, ← each.length_eq] at h
    exact unfolds_layerRules each h h'
  | false =>
    rw [expandRule_of_noStack stack] at h
    rw [expandRule_of_noStack (unfolds.isStack.trans stack)] at h'
    cases h
    cases h'
    exact ⟨rfl, unfolds, trivial⟩

theorem unfolds_insertEntry {name : String} {t u : Term} (here : t.Unfolds u) :
    ∀ {entries entries' : List (String × Term)}, UnfoldsEntries entries entries' →
      UnfoldsEntries (Table.insertEntry name t entries) (Table.insertEntry name u entries')
  | [], [], _ => ⟨rfl, here, trivial⟩
  | (other, _) :: _, (_, _) :: _, ⟨rfl, first, others⟩ => by
    rw [Table.insertEntry, Table.insertEntry]
    split
    · exact ⟨rfl, here, others⟩
    · split
      · exact ⟨rfl, here, rfl, first, others⟩
      · exact ⟨rfl, first, unfolds_insertEntry here others⟩

theorem unfolds_addNew : ∀ {g g' result result' : Grammar} {rules rules' : List (String × Term)},
    UnfoldsEntries g.entries g'.entries → UnfoldsEntries rules rules' → addNew g rules = .ok result →
    addNew g' rules' = .ok result' → UnfoldsEntries result.entries result'.entries
  | _, _, _, _, [], [], both, _, h, h' => by
    cases h
    cases h'
    exact both
  | _, _, _, _, (_, _) :: _, (_, _) :: _, both, ⟨rfl, first, others⟩, h, h' => by
    rw [addNew] at h h'
    split at h
    · cases h
    · split at h'
      · cases h'
      · exact unfolds_addNew (unfolds_insertEntry first both) others h h'

theorem unfolds_addExpanded : ∀ {g g' result result' : Grammar} {rules rules' : List (String × Term)},
    UnfoldsEntries g.entries g'.entries → UnfoldsEntries rules rules' → addExpanded g rules = .ok result →
    addExpanded g' rules' = .ok result' → UnfoldsEntries result.entries result'.entries
  | _, _, _, _, [], [], both, _, h, h' => by
    cases h
    cases h'
    exact both
  | _, _, _, _, (_, _) :: _, (_, _) :: _, both, ⟨rfl, first, others⟩, h, h' => by
    obtain ⟨_, expanded, h⟩ := Except.bind_eq_ok h
    obtain ⟨_, added, h⟩ := Except.bind_eq_ok h
    obtain ⟨_, expanded', h'⟩ := Except.bind_eq_ok h'
    obtain ⟨_, added', h'⟩ := Except.bind_eq_ok h'
    exact unfolds_addExpanded (unfolds_addNew both (unfolds_expandRule first expanded expanded') added added') others
      h h'

theorem unfolds_eliminateLayers {entries entries' : List (String × Term)} {flat flat' : Grammar}
    (unfolds : UnfoldsEntries entries entries') (h : eliminateLayers ⟨entries⟩ = .ok flat)
    (h' : eliminateLayers ⟨entries'⟩ = .ok flat') : UnfoldsTable flat flat' := by
  obtain ⟨rules⟩ := flat
  obtain ⟨rules'⟩ := flat'
  have nothing : UnfoldsEntries (Table.empty : Grammar).entries (Table.empty : Grammar).entries := trivial
  exact unfolds_addExpanded nothing unfolds h h'

end Grammar

namespace Term

open Grammar (eliminateLocal eliminateLayers)

/-- Traversing a list that is written out. -/
theorem traverse_unfoldedList {element separator u : Term} {style : ListStyle}
    (h : (unfoldedList element separator style).traverse eliminateLocal = .ok u) :
    ∃ element' separator', element.traverse eliminateLocal = .ok element' ∧
      separator.traverse eliminateLocal = .ok separator' ∧ u = unfoldedList element' separator' style := by
  obtain ⟨assoc, leading, trailing⟩ := style
  cases first : element.traverse eliminateLocal with
  | error e =>
    simp only [unfoldedList, traverse, traverseAll, first, bind, Except.bind] at h
    cases h
  | ok element' =>
    cases second : separator.traverse eliminateLocal with
    | error e =>
      simp only [unfoldedList, listRest, many, traverse, traverseAll, first, second, bind, Except.bind] at h
      cases h
    | ok separator' =>
      refine ⟨element', separator', rfl, rfl, ?_⟩
      cases leading <;> cases trailing <;>
      · simp only [unfoldedList, listRest, many, optional, traverse, traverseAll, first, second, bind, Except.bind,
          eliminateLocal, if_true, Bool.false_eq_true, if_false] at h
        exact (Except.ok.inj h).symm

mutual
theorem Unfolds.traverse : ∀ {t u t' u' : Term}, t.Unfolds u → t.traverse eliminateLocal = .ok t' →
    u.traverse eliminateLocal = .ok u' → t'.Unfolds u'
  | rule _, _, _, _, rfl, h, h' => by
    cases h
    cases h'
    rfl
  | literal _, _, _, _, rfl, h, h' => by
    cases h
    cases h'
    rfl
  | regex _, _, _, _, rfl, h, h' => by
    cases h
    cases h'
    rfl
  | seq _, _, _, _, ⟨_, rfl, each⟩, h, h' => by
    obtain ⟨_, found, h⟩ := Except.bind_eq_ok h
    cases h
    obtain ⟨_, found', h'⟩ := Except.bind_eq_ok h'
    cases h'
    exact ⟨_, rfl, UnfoldsAll.traverse each found found'⟩
  | choice _, _, _, _, ⟨_, rfl, each⟩, h, h' => by
    obtain ⟨_, found, h⟩ := Except.bind_eq_ok h
    cases h
    obtain ⟨_, found', h'⟩ := Except.bind_eq_ok h'
    cases h'
    exact ⟨_, rfl, UnfoldsAll.traverse each found found'⟩
  | stack _, _, _, _, ⟨_, rfl, each⟩, h, h' => by
    obtain ⟨_, found, h⟩ := Except.bind_eq_ok h
    cases h
    obtain ⟨_, found', h'⟩ := Except.bind_eq_ok h'
    cases h'
    exact ⟨_, rfl, UnfoldsAll.traverse each found found'⟩
  | list _ _ _, _, _, _, ⟨_, _, first, second, same⟩, h, h' => by
    obtain ⟨_, found, h⟩ := Except.bind_eq_ok h
    obtain ⟨_, found', h⟩ := Except.bind_eq_ok h
    cases h
    rcases same with rfl | rfl
    · obtain ⟨_, other, h'⟩ := Except.bind_eq_ok h'
      obtain ⟨_, other', h'⟩ := Except.bind_eq_ok h'
      cases h'
      exact ⟨_, _, Unfolds.traverse first found other, Unfolds.traverse second found' other', .inl rfl⟩
    · obtain ⟨_, _, other, other', rfl⟩ := traverse_unfoldedList h'
      exact ⟨_, _, Unfolds.traverse first found other, Unfolds.traverse second found' other', .inr rfl⟩
  | quant t _ _, _, _, _, ⟨_, rfl, inner⟩, h, h' => by
    obtain ⟨_, found, h⟩ := Except.bind_eq_ok h
    cases h
    obtain ⟨_, found', h'⟩ := Except.bind_eq_ok h'
    cases h'
    exact ⟨_, rfl, Unfolds.traverse (t := t) inner found found'⟩
  | capture _ t, _, _, _, ⟨_, rfl, inner⟩, h, h' => by
    obtain ⟨_, found, h⟩ := Except.bind_eq_ok h
    cases h
    obtain ⟨_, found', h'⟩ := Except.bind_eq_ok h'
    cases h'
    exact ⟨_, rfl, Unfolds.traverse (t := t) inner found found'⟩
  | backref _ none, _, _, _, ⟨none, rfl, _⟩, h, h' => by
    cases h
    cases h'
    exact ⟨none, rfl, trivial⟩
  | backref _ (some t), _, _, _, ⟨some u, rfl, inner⟩, h, h' => by
    obtain ⟨_, default, h⟩ := Except.bind_eq_ok h
    obtain ⟨_, found, same⟩ := Except.bind_eq_ok (x := t.traverse eliminateLocal) default
    cases same
    cases h
    obtain ⟨_, default', h'⟩ := Except.bind_eq_ok h'
    obtain ⟨_, found', same⟩ := Except.bind_eq_ok (x := u.traverse eliminateLocal) default'
    cases same
    cases h'
    exact ⟨_, rfl, Unfolds.traverse (t := t) (u := u) inner found found'⟩
  | cut t, _, _, _, ⟨_, rfl, inner⟩, h, h' => by
    obtain ⟨_, found, h⟩ := Except.bind_eq_ok h
    cases h
    obtain ⟨_, found', h'⟩ := Except.bind_eq_ok h'
    cases h'
    exact ⟨_, rfl, Unfolds.traverse (t := t) inner found found'⟩
  | withRules t ⟨entries⟩, _, _, _, ⟨_, ⟨entries'⟩, rfl, inner, table⟩, h, h' => by
    obtain ⟨_, found, h⟩ := Except.bind_eq_ok h
    obtain ⟨_, second, h⟩ := Except.bind_eq_ok h
    obtain ⟨_, rules, same⟩ := Except.bind_eq_ok second
    cases same
    obtain ⟨_, eliminated, rfl⟩ := Grammar.eliminateLocal_withRules h
    obtain ⟨_, found', h'⟩ := Except.bind_eq_ok h'
    obtain ⟨_, second', h'⟩ := Except.bind_eq_ok h'
    obtain ⟨_, rules', same⟩ := Except.bind_eq_ok second'
    cases same
    obtain ⟨_, eliminated', rfl⟩ := Grammar.eliminateLocal_withRules h'
    have each : UnfoldsEntries entries entries' := table
    have each := UnfoldsEntries.traverse each rules rules'
    exact ⟨_, _, rfl, Unfolds.traverse inner found found', Grammar.unfolds_eliminateLayers each eliminated eliminated'⟩

theorem UnfoldsAll.traverse : ∀ {ts us ts' us' : List Term}, UnfoldsAll ts us →
    traverseAll eliminateLocal ts = .ok ts' → traverseAll eliminateLocal us = .ok us' → UnfoldsAll ts' us'
  | [], [], _, _, _, h, h' => by
    cases h
    cases h'
    trivial
  | _ :: _, _ :: _, _, _, ⟨first, others⟩, h, h' => by
    obtain ⟨_, found, h⟩ := Except.bind_eq_ok h
    obtain ⟨_, rest, h⟩ := Except.bind_eq_ok h
    cases h
    obtain ⟨_, found', h'⟩ := Except.bind_eq_ok h'
    obtain ⟨_, rest', h'⟩ := Except.bind_eq_ok h'
    cases h'
    exact ⟨Unfolds.traverse first found found', UnfoldsAll.traverse others rest rest'⟩

theorem UnfoldsEntries.traverse : ∀ {entries entries' traversed traversed' : List (String × Term)},
    UnfoldsEntries entries entries' → traverseEntries eliminateLocal entries = .ok traversed →
    traverseEntries eliminateLocal entries' = .ok traversed' → UnfoldsEntries traversed traversed'
  | [], [], _, _, _, h, h' => by
    cases h
    cases h'
    trivial
  | (_, _) :: _, (_, _) :: _, _, _, ⟨rfl, first, others⟩, h, h' => by
    obtain ⟨_, found, h⟩ := Except.bind_eq_ok h
    obtain ⟨_, rest, h⟩ := Except.bind_eq_ok h
    cases h
    obtain ⟨_, found', h'⟩ := Except.bind_eq_ok h'
    obtain ⟨_, rest', h'⟩ := Except.bind_eq_ok h'
    cases h'
    exact ⟨rfl, Unfolds.traverse first found found', UnfoldsEntries.traverse others rest rest'⟩
end

end Term

/-- Without their stacks, grammars that differ in lists that are written out still do so. -/
theorem Grammar.unfolds_eliminateStacks {g g' flat flat' : Grammar} (unfolds : g.Unfolds g')
    (h : g.eliminateStacks = .ok flat) (h' : g'.eliminateStacks = .ok flat') : flat.Unfolds flat' := by
  obtain ⟨entries⟩ := g
  obtain ⟨entries'⟩ := g'
  obtain ⟨_, traverses, eliminated⟩ := Except.bind_eq_ok h
  obtain ⟨_, found, same⟩ := Except.bind_eq_ok (x := Term.traverseEntries eliminateLocal entries) traverses
  cases same
  obtain ⟨_, traverses', eliminated'⟩ := Except.bind_eq_ok h'
  obtain ⟨_, found', same⟩ := Except.bind_eq_ok (x := Term.traverseEntries eliminateLocal entries') traverses'
  cases same
  have each : Term.UnfoldsEntries entries entries' := unfolds
  exact unfolds_eliminateLayers (each.traverse found found') eliminated eliminated'

/-! ### Padding -/

namespace Padding

theorem eq_of_isTerminal {t u : Term} (terminal : isTerminal t = true) (unfolds : t.Unfolds u) : u = t := by
  cases t with
  | literal text => exact unfolds
  | regex pattern => exact unfolds
  | _ => cases terminal

theorem unfoldsAll_of_isTerminal : ∀ {ts us : List Term}, (∀ t ∈ ts, isTerminal t = true) → Term.UnfoldsAll ts us →
    us = ts
  | [], [], _, _ => rfl
  | _ :: _, _ :: _, terminals, ⟨first, others⟩ => by
    obtain ⟨here, rest⟩ := List.forall_mem_cons.mp terminals
    rw [eq_of_isTerminal here first, unfoldsAll_of_isTerminal rest others]

/-- There is no list in a term that stands for padding. -/
theorem eq_of_unfolds {t u : Term} {padding : Padding} (h : ofTerm t = .ok padding) (unfolds : t.Unfolds u) :
    u = t := by
  rcases terminals_of_ofTerm h with ⟨pattern, rfl⟩ | ⟨ts, rfl, terminals⟩
  · exact unfolds
  · obtain ⟨us, rfl, each⟩ := unfolds
    rw [unfoldsAll_of_isTerminal terminals each]

/-- Padding does not depend on whether lists are written out. -/
theorem ofGrammar_unfolds {rules rules' : Grammar} {outer padding : Option Padding} (unfolds : rules.Unfolds rules')
    (h : ofGrammar rules outer = .ok padding) : ofGrammar rules' outer = .ok padding := by
  obtain ⟨entries⟩ := rules
  obtain ⟨entries'⟩ := rules'
  have each : Term.UnfoldsEntries entries entries' := unfolds
  have found := each.lookup paddingRule
  rw [ofGrammar, Table.get?] at h ⊢
  generalize Table.lookup paddingRule entries = own at h found
  generalize Table.lookup paddingRule entries' = own' at found
  cases found with
  | none => exact h
  | @some t u unfolds =>
    dsimp only at h ⊢
    cases made : ofTerm t with
    | error violation =>
      rw [made] at h
      cases h
    | ok padding =>
      rw [eq_of_unfolds made unfolds]
      exact h

end Padding
end GrammarKit
