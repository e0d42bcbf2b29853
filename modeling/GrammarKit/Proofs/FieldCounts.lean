/-
Module: GrammarKit.Proofs.FieldCounts
Purpose: What the counters of a term count.  Up to two, the upper bound of a field is the number of its
  occurrences in the term, where a repetition counts as often as it may repeat and a choice as its largest
  alternative.  So a field that holds one value occurs once, and one that occurs twice holds a list.
Main exports: Counters.occurrences, Counters.countTerm_spec, Counters.isSingle_ofTerm, Counters.Covers
-/
import Mathlib.Data.List.Nodup
import GrammarKit.Generic.Cardinality
import GrammarKit.Proofs.Features

namespace GrammarKit.Generic.Counters

/-! ### Occurrences -/

mutual
/-- How often a field occurs in a term, where bookkeeping fields count as if they occurred at least twice. -/
def occurrences (field : String) : Term → Nat
  | .literal _ => if field = "" then 1 else 0
  | .regex _ => if field = "" then 1 else 0
  | .rule name => if field = baseName name then 1 else 0
  | .backref name _ => if field = name then 1 else 0
  | .capture name _ => if field = name then 1 else 0
  | .seq ts => occurrencesAll field ts
  | .choice ts => (if field = choiceField then 2 else 0) + occurrencesMost field ts
  | .stack ts => (if field = choiceField then 2 else 0) + occurrencesMost field ts
  | .list element separator _ =>
      (if field = listField then 2 else 0) + 2 * occurrences field element
        + 2 * occurrences field separator
  | .quant t _ max =>
      (if field = countField then 2 else 0) + (if max = 0 then 2 else max) * occurrences field t
  | .cut t => occurrences field t
  | .withRules t _ => occurrences field t

/-- How often a field occurs in several terms together. -/
def occurrencesAll (field : String) : List Term → Nat
  | [] => 0
  | t :: ts => occurrences field t + occurrencesAll field ts

/-- How often a field occurs in that of several terms in which it occurs most. -/
def occurrencesMost (field : String) : List Term → Nat
  | [] => 0
  | t :: ts => max (occurrences field t) (occurrencesMost field ts)
end

/-! ### Saturation -/

theorem min_two_add (a b : Nat) : min (min a 2 + b) 2 = min (a + b) 2 := by
  omega

theorem min_two_mul (a b : Nat) : min (min a 2 * b) 2 = min (a * b) 2 := by
  by_cases small : a ≤ 2
  · rw [Nat.min_eq_left small]
  · cases b with
    | zero => rfl
    | succ b =>
      have : a * 1 ≤ a * (b + 1) := Nat.mul_le_mul_left a (by omega)
      have : 2 * 1 ≤ 2 * (b + 1) := Nat.mul_le_mul_left 2 (by omega)
      rw [Nat.min_eq_right (show 2 ≤ a by omega)]
      omega

theorem min_two_mul_right (a b : Nat) : min (a * min b 2) 2 = min (a * b) 2 := by
  rw [Nat.mul_comm, min_two_mul, Nat.mul_comm]

/-! ### Counting -/

theorem of_count (counters : Counters) (field other : String) (c : Cardinality) :
    (counters.count other c).of field
      = if field = other then (counters.of field).add c else counters.of field := by
  unfold count of
  split
  · next same =>
    subst same
    rw [Table.get?_insert_self, Option.getD_some]
  · next ne => rw [Table.get?_insert_of_ne _ ne]

theorem hi_count (counters : Counters) (field other : String) (c : Cardinality) :
    ((counters.count other c).of field).hi
      = if field = other then min ((counters.of field).hi + c.hi) 2 else (counters.of field).hi := by
  rw [of_count]
  split <;> rfl

theorem ordered_count {counters : Counters} (h : counters.Ordered) (field : String) (c : Cardinality) :
    (counters.count field c).Ordered :=
  Table.ordered_insert h field _

theorem nodup_eraseDups : ∀ names : List String, names.eraseDups.Nodup
  | [] => List.nodup_nil
  | name :: names => by
    rw [List.eraseDups_cons, List.nodup_cons]
    refine ⟨fun member => ?_, nodup_eraseDups _⟩
    rw [List.mem_eraseDups, List.mem_filter] at member
    simp at member
termination_by names => names.length
decreasing_by exact Nat.lt_succ_of_le (List.length_filter_le _ _)

/-- Counting each of several fields once, whatever the counts depend on. -/
theorem of_foldl_count (c : String → Cardinality) {fields : List String} (nodup : fields.Nodup)
    (counters : Counters) (field : String) :
    (fields.foldl (fun counters field => counters.count field (c field)) counters).of field
      = if field ∈ fields then (counters.of field).add (c field) else counters.of field := by
  induction fields generalizing counters with
  | nil => rfl
  | cons first fields ih =>
    obtain ⟨new, nodup⟩ := List.nodup_cons.mp nodup
    rw [List.foldl_cons, ih nodup, of_count]
    by_cases same : field = first
    · subst same
      simp [new]
    · simp [same]

theorem ordered_foldl_count (c : String → Cardinality) (fields : List String) {counters : Counters}
    (h : counters.Ordered) :
    (fields.foldl (fun counters field => counters.count field (c field)) counters).Ordered := by
  induction fields generalizing counters with
  | nil => exact h
  | cons first fields ih => exact ih (ordered_count h first _)

theorem mem_names_foldl_count (c : String → Cardinality) {fields : List String} {counters : Counters}
    {field : String}
    (h : field ∈ (fields.foldl (fun counters field => counters.count field (c field)) counters).names) :
    field ∈ counters.names ∨ field ∈ fields := by
  induction fields generalizing counters with
  | nil => exact .inl h
  | cons first fields ih =>
    rcases ih h with earlier | member
    · rcases Table.mem_names_insertEntry earlier with rfl | before
      · exact .inr List.mem_cons_self
      · exact .inl before
    · exact .inr (List.mem_cons_of_mem _ member)

/-- The union of what some counters say of a field. -/
def unionOf (field : String) : List Counters → Cardinality
  | [] => .never
  | c :: cs => (cs.map (·.of field)).foldl Cardinality.union (c.of field)

theorem hi_foldl_union (c : Cardinality) (cs : List Cardinality) :
    (cs.foldl Cardinality.union c).hi = (cs.map (·.hi)).foldl max c.hi := by
  induction cs generalizing c with
  | nil => rfl
  | cons first cs ih =>
    rw [List.foldl_cons, ih]
    rfl

theorem countChoice_eq (counters : Counters) (parent : Cardinality) (alternatives : List Counters) :
    counters.countChoice parent alternatives
      = (alternatives.flatMap Table.names).eraseDups.foldl
          (fun counters field => counters.count field (parent.mul (unionOf field alternatives)))
          counters := by
  cases alternatives with
  | nil => rfl
  | cons c cs => rfl

theorem foldl_max (start : Nat) (ns : List Nat) : ns.foldl max start = max start (ns.foldl max 0) := by
  induction ns generalizing start with
  | nil => simp
  | cons n ns ih =>
    rw [List.foldl_cons, List.foldl_cons, ih, ih (max 0 n)]
    omega

theorem hi_of_le_two {counters : Counters} {n : Nat} {field : String}
    (h : (counters.of field).hi = min n 2) : (counters.of field).hi ≤ 2 :=
  h ▸ Nat.min_le_right _ _

theorem hi_unionOf_cons (field : String) (c : Counters) (cs : List Counters) :
    (unionOf field (c :: cs)).hi = max (c.of field).hi (unionOf field cs).hi := by
  rw [unionOf, hi_foldl_union, foldl_max]
  cases cs with
  | nil => rfl
  | cons c' cs =>
    rw [unionOf, hi_foldl_union, List.map_cons, List.map_cons, List.foldl_cons, Nat.zero_max]

/-- A field that no alternative has occurs in none. -/
theorem hi_unionOf_of_not_mem {alternatives : List Counters} {field : String}
    (absent : field ∉ alternatives.flatMap Table.names) : (unionOf field alternatives).hi = 0 := by
  have never : ∀ c ∈ alternatives, c.of field = .never := by
    intro c member
    have missing : field ∉ c.names := fun named => absent (List.mem_flatMap.mpr ⟨c, member, named⟩)
    unfold of Table.get?
    rw [Option.not_isSome_iff_eq_none.mp (mt Table.lookup_isSome.mp missing)]
    rfl
  cases alternatives with
  | nil => rfl
  | cons c cs =>
    have others : cs.map (·.of field) = cs.map fun _ => .never :=
      List.map_congr_left fun c member => never c (List.mem_cons_of_mem _ member)
    rw [unionOf, others, never c List.mem_cons_self, hi_foldl_union]
    clear absent never others
    induction cs with
    | nil => rfl
    | cons _ cs ih => simpa using ih

/-- What counting does: a field that occurs `occ` times in a term that occurs `parent` times is counted so
often, up to two. -/
structure Counted (parent : Nat) (counters result : Counters) (occ : String → Nat) : Prop where
  ordered : counters.Ordered → result.Ordered
  hi : ∀ field, (counters.of field).hi ≤ 2 →
    (result.of field).hi = min ((counters.of field).hi + parent * occ field) 2
  names : ∀ field ∈ result.names, field ∈ counters.names ∨ 0 < occ field

namespace Counted

variable {parent : Nat} {counters between result : Counters} {occ occ' : String → Nat}

theorem refl (parent : Nat) (counters : Counters) : Counted parent counters counters fun _ => 0 :=
  ⟨id, fun _ small => (Nat.min_eq_left small).symm, fun _ => .inl⟩

theorem trans (h : Counted parent counters between occ) (h' : Counted parent between result occ') :
    Counted parent counters result fun field => occ field + occ' field := by
  refine ⟨fun ordered => h'.ordered (h.ordered ordered), fun field small => ?_, fun field named => ?_⟩
  · have first := h.hi field small
    rw [h'.hi field (hi_of_le_two first), first, min_two_add, Nat.mul_add, Nat.add_assoc]
  · rcases h'.names field named with earlier | occurs
    · exact (h.names field earlier).imp_right fun occurs => Nat.add_pos_left occurs _
    · exact .inr (Nat.add_pos_right _ occurs)

/-- What occurs some times inside a part that occurs so many times. -/
theorem scale {whole part : Cardinality} {times : Nat} (some : 0 < times) (hi : part.hi = min times 2)
    (h : Counted (whole.mul part).hi counters result occ) :
    Counted whole.hi counters result fun field => times * occ field := by
  refine ⟨h.ordered, fun field small => ?_,
    fun field named => (h.names field named).imp_right fun occurs => Nat.mul_pos some occurs⟩
  have product : (whole.mul part).hi = min (whole.hi * min times 2) 2 := hi ▸ rfl
  have inner : min ((whole.mul part).hi * occ field) 2 = min (whole.hi * (times * occ field)) 2 := by
    rw [product, min_two_mul, ← min_two_mul, min_two_mul_right, min_two_mul, Nat.mul_assoc]
  rw [h.hi field small]
  omega

theorem count (parent : Cardinality) (counters : Counters) (name : String) :
    Counted parent.hi counters (counters.count name parent) fun field => if field = name then 1 else 0 := by
  refine ⟨fun ordered => ordered_count ordered _ _, fun field small => ?_, fun field named => ?_⟩
  · rw [hi_count]
    split
    · rw [Nat.mul_one]
    · exact (Nat.min_eq_left small).symm
  · rcases Table.mem_names_insertEntry named with rfl | earlier
    · exact .inr (by simp)
    · exact .inl earlier

/-- Bookkeeping fields are counted as if they occurred more than once. -/
theorem mark (occurs : 1 ≤ parent) (counters : Counters) (name : String) :
    Counted parent counters (counters.count name .zeroOrMore) fun field => if field = name then 2 else 0 := by
  refine ⟨fun ordered => ordered_count ordered _ _, fun field small => ?_, fun field named => ?_⟩
  · rw [hi_count]
    split
    · have : 1 * 2 ≤ parent * 2 := Nat.mul_le_mul_right 2 occurs
      simp only [Cardinality.zeroOrMore]
      omega
    · exact (Nat.min_eq_left small).symm
  · rcases Table.mem_names_insertEntry named with rfl | earlier
    · exact .inr (by simp)
    · exact .inl earlier

end Counted

theorem hi_of_empty (field : String) : (of Table.empty field).hi = 0 := rfl

/-- Counting a choice counts the alternative in which a field occurs most. -/
theorem counted_choice (parent : Cardinality) (counters : Counters) {alternatives : List Counters}
    {ts : List Term}
    (each : ∀ field, (unionOf field alternatives).hi = min (occurrencesMost field ts) 2)
    (names : ∀ field ∈ alternatives.flatMap Table.names, 0 < occurrencesMost field ts) :
    Counted parent.hi counters (counters.countChoice parent alternatives)
      fun field => occurrencesMost field ts := by
  rw [countChoice_eq]
  refine ⟨ordered_foldl_count _ _, fun field small => ?_, fun field named => ?_⟩
  · rw [of_foldl_count _ (nodup_eraseDups _)]
    split
    · show min ((counters.of field).hi + min (parent.hi * (unionOf field alternatives).hi) 2) 2 = _
      rw [each, min_two_mul_right]
      omega
    · next absent =>
      rw [List.mem_eraseDups] at absent
      have none := each field
      rw [hi_unionOf_of_not_mem absent] at none
      rw [show occurrencesMost field ts = 0 by omega]
      exact (Nat.min_eq_left small).symm
  · refine (mem_names_foldl_count _ named).imp_right fun member => names field ?_
    rwa [List.mem_eraseDups] at member

theorem hi_ofQuant (min' max' : Nat) :
    (Cardinality.ofQuant min' max').hi = min (if max' = 0 then 2 else max') 2 := rfl

theorem one_le_hi_mul {parent c : Cardinality} (occurs : 1 ≤ parent.hi) (occurs' : 1 ≤ c.hi) :
    1 ≤ (parent.mul c).hi := by
  have : 1 * 1 ≤ parent.hi * c.hi := Nat.mul_le_mul occurs occurs'
  show 1 ≤ min (parent.hi * c.hi) 2
  omega

mutual
/-- The counters of a term count its occurrences. -/
theorem countTerm_spec : ∀ (t : Term) {parent : Cardinality} (counters : Counters), 1 ≤ parent.hi →
    Counted parent.hi counters (countTerm parent counters t) fun field => occurrences field t
  | .literal _, parent, counters, _ => .count parent counters ""
  | .regex _, parent, counters, _ => .count parent counters ""
  | .rule name, parent, counters, _ => .count parent counters (baseName name)
  | .backref name _, parent, counters, _ => .count parent counters name
  | .capture name _, parent, counters, _ => .count parent counters name
  | .seq ts, _, counters, occurs => countAll_spec ts counters occurs
  | .choice ts, parent, counters, occurs => by
    have inner := counted_choice parent (counters.count choiceField .zeroOrMore) (hi_countEach ts)
      (names_countEach ts)
    exact (Counted.mark occurs counters choiceField).trans inner
  | .stack ts, parent, counters, occurs => by
    have inner := counted_choice parent (counters.count choiceField .zeroOrMore) (hi_countEach ts)
      (names_countEach ts)
    exact (Counted.mark occurs counters choiceField).trans inner
  | .list element separator _, parent, counters, occurs => by
    have marked := Counted.mark occurs counters listField
    have elements : 1 ≤ (parent.mul .oneOrMore).hi := one_le_hi_mul occurs (show 1 ≤ 2 by omega)
    have separators : 1 ≤ (parent.mul .zeroOrMore).hi := one_le_hi_mul occurs (show 1 ≤ 2 by omega)
    have first := countTerm_spec element (counters.count listField .zeroOrMore) elements
    have second := countTerm_spec separator
      (countTerm (parent.mul .oneOrMore) (counters.count listField .zeroOrMore) element) separators
    exact (marked.trans (first.scale Nat.two_pos rfl)).trans (second.scale Nat.two_pos rfl)
  | .quant t min' max', parent, counters, occurs => by
    have marked := Counted.mark occurs counters countField
    have times : 0 < if max' = 0 then 2 else max' := by
      split <;> omega
    have repeats : 1 ≤ (Cardinality.ofQuant min' max').hi := by
      rw [hi_ofQuant]
      omega
    have inner := countTerm_spec t (counters.count countField .zeroOrMore) (one_le_hi_mul occurs repeats)
    exact marked.trans (inner.scale times rfl)
  | .cut t, _, counters, occurs => countTerm_spec t counters occurs
  | .withRules t _, _, counters, occurs => countTerm_spec t counters occurs

theorem countAll_spec : ∀ (ts : List Term) {parent : Cardinality} (counters : Counters), 1 ≤ parent.hi →
    Counted parent.hi counters (countAll parent counters ts) fun field => occurrencesAll field ts
  | [], parent, counters, _ => .refl parent.hi counters
  | t :: ts, parent, counters, occurs =>
    (countTerm_spec t counters occurs).trans (countAll_spec ts (countTerm parent counters t) occurs)

theorem hi_countEach : ∀ (ts : List Term) (field : String),
    (unionOf field (countEach ts)).hi = min (occurrencesMost field ts) 2
  | [], _ => rfl
  | t :: ts, field => by
    have counted : Counted 1 Table.empty (countTerm .once Table.empty t) fun field => occurrences field t :=
      @countTerm_spec t .once Table.empty (Nat.le_refl 1)
    have here := counted.hi field (Nat.zero_le 2)
    rw [hi_of_empty, Nat.zero_add, Nat.one_mul] at here
    rw [countEach, hi_unionOf_cons, here, hi_countEach ts field, occurrencesMost]
    omega

theorem names_countEach : ∀ (ts : List Term) (field : String),
    field ∈ (countEach ts).flatMap Table.names → 0 < occurrencesMost field ts
  | t :: ts, field, named => by
    have counted : Counted 1 Table.empty (countTerm .once Table.empty t) fun field => occurrences field t :=
      @countTerm_spec t .once Table.empty (Nat.le_refl 1)
    rw [countEach, List.flatMap_cons, List.mem_append] at named
    rw [occurrencesMost]
    rcases named with here | later
    · have := (counted.names field here).resolve_left (List.not_mem_nil (a := field))
      omega
    · have := names_countEach ts field later
      omega
end

/-- The counters of a whole term. -/
theorem ofTerm_spec (t : Term) :
    (ofTerm t).Ordered ∧ (∀ field, ((ofTerm t).of field).hi = min (occurrences field t) 2) ∧
      ∀ field ∈ (ofTerm t).names, 0 < occurrences field t := by
  have counted : Counted 1 Table.empty (ofTerm t) fun field => occurrences field t :=
    @countTerm_spec t .once Table.empty (Nat.le_refl 1)
  refine ⟨counted.ordered Table.ordered_empty, fun field => ?_, fun field named => ?_⟩
  · rw [counted.hi field (Nat.zero_le 2), hi_of_empty, Nat.zero_add, Nat.one_mul]
  · exact (counted.names field named).resolve_left (List.not_mem_nil (a := field))

/-- A field that holds one value occurs once. -/
theorem isSingle_ofTerm {t : Term} {field : String} (single : (ofTerm t).isSingle field = true) :
    occurrences field t = 1 := by
  have hi := (ofTerm_spec t).2.1 field
  have one : ((ofTerm t).of field).hi = 1 := by
    rw [isSingle, Cardinality.isSingle, Bool.or_eq_true, beq_iff_eq, beq_iff_eq] at single
    rcases single with same | same <;> rw [same]
  omega

/-- Counters of a term that contains the given one: what occurs twice in it holds a list. -/
def Covers (counters : Counters) (t : Term) : Prop :=
  ∀ field, 2 ≤ occurrences field t → counters.isSingle field = false

theorem covers_ofTerm (t : Term) : (ofTerm t).Covers t := by
  intro field often
  by_contra single
  have := isSingle_ofTerm ((Bool.not_eq_false _).mp single)
  omega

/-- Counters cover what occurs no more often than what they cover. -/
theorem Covers.mono {counters : Counters} {t u : Term} (h : counters.Covers t)
    (le : ∀ field, occurrences field u ≤ occurrences field t) : counters.Covers u :=
  fun field often => h field (Nat.le_trans often (le field))

end GrammarKit.Generic.Counters
