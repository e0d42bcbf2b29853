/-
Module: GrammarKit.Proofs.RequiredFields
Purpose: The lower bounds of the counters.  The lower bound of a field is the number of its occurrences that no
  match of the term goes without, where a repetition counts as often as it must repeat, a choice as the least of
  its alternatives, and a list as one element.
Main exports: Counters.required, Counters.lo_countTerm, Counters.lo_ofTerm, Counters.of_ofTerm
-/
import GrammarKit.Proofs.FieldCounts

namespace GrammarKit.Generic.Counters

mutual
/-- How often a field occurs at least in a match of a term. -/
def required (field : String) : Term → Nat
  | .literal _ => if field = "" then 1 else 0
  | .regex _ => if field = "" then 1 else 0
  | .rule name => if field = baseName name then 1 else 0
  | .backref name _ => if field = name then 1 else 0
  | .capture name _ => if field = name then 1 else 0
  | .seq ts => requiredAll field ts
  | .choice ts => requiredLeast field ts
  | .stack ts => requiredLeast field ts
  | .list element _ _ => required field element
  | .quant t min _ => min * required field t
  | .cut t => required field t
  | .withRules t _ => required field t

/-- How often a field occurs at least in several terms together. -/
def requiredAll (field : String) : List Term → Nat
  | [] => 0
  | t :: ts => required field t + requiredAll field ts

/-- How often a field occurs at least in any of several terms. -/
def requiredLeast (field : String) : List Term → Nat
  | [] => 0
  | [t] => required field t
  | t :: u :: ts => min (required field t) (requiredLeast field (u :: ts))
end

theorem requiredLeast_le {field : String} {t : Term} : ∀ {ts : List Term}, t ∈ ts →
    requiredLeast field ts ≤ required field t
  | [_], member => by
    obtain rfl := List.mem_singleton.mp member
    exact Nat.le_refl _
  | first :: second :: ts, member => by
    rw [requiredLeast]
    rcases List.mem_cons.mp member with rfl | later
    · exact Nat.min_le_left _ _
    · exact Nat.le_trans (Nat.min_le_right _ _) (requiredLeast_le later)

/-! ### Counting -/

theorem lo_count (counters : Counters) (field other : String) (c : Cardinality) :
    ((counters.count other c).of field).lo = (counters.of field).lo + if field = other then c.lo else 0 := by
  rw [of_count]
  split <;> rfl

/-- Bookkeeping fields are never required. -/
theorem lo_count_mark (counters : Counters) (field name : String) :
    ((counters.count name .zeroOrMore).of field).lo = (counters.of field).lo := by
  rw [lo_count]
  split <;> rfl

/-- A part that occurs as often as `parent` says. -/
theorem lo_count_one (parent : Cardinality) (counters : Counters) (field name : String) :
    ((counters.count name parent).of field).lo
      = (counters.of field).lo + parent.lo * if field = name then 1 else 0 := by
  rw [lo_count]
  split <;> simp

/-- A field that no alternative has is in none of them. -/
theorem unionOf_of_not_mem {alternatives : List Counters} {field : String}
    (absent : field ∉ alternatives.flatMap Table.names) : unionOf field alternatives = .never := by
  have never : ∀ c ∈ alternatives, c.of field = .never := by
    intro c member
    have missing : field ∉ c.names := fun named => absent (List.mem_flatMap.mpr ⟨c, member, named⟩)
    unfold of Table.get?
    rw [Option.not_isSome_iff_eq_none.mp (mt Table.lookup_isSome.mp missing)]
    rfl
  cases alternatives with
  | nil => rfl
  | cons c cs =>
    have others : cs.map (·.of field) = cs.map fun _ => .never :=
      List.map_congr_left fun c member => never c (List.mem_cons_of_mem _ member)
    rw [unionOf, others, never c List.mem_cons_self]
    clear absent never others
    induction cs with
    | nil => rfl
    | cons _ cs ih => exact ih

theorem lo_foldl_union (c : Cardinality) (cs : List Cardinality) :
    (cs.foldl Cardinality.union c).lo = (cs.map (·.lo)).foldl min c.lo := by
  induction cs generalizing c with
  | nil => rfl
  | cons first cs ih => exact ih (c.union first)

theorem foldl_min (m n : Nat) (ns : List Nat) : ns.foldl min (min m n) = min m (ns.foldl min n) := by
  induction ns generalizing n with
  | nil => rfl
  | cons k ns ih => rw [List.foldl_cons, List.foldl_cons, Nat.min_assoc, ih]

theorem lo_empty (field : String) : (of Table.empty field).lo = 0 := rfl

theorem lo_unionOf_cons (field : String) (c c' : Counters) (cs : List Counters) :
    (unionOf field (c :: c' :: cs)).lo = min (c.of field).lo (unionOf field (c' :: cs)).lo := by
  rw [unionOf, unionOf, lo_foldl_union, lo_foldl_union, List.map_cons, List.map_cons, List.foldl_cons]
  exact foldl_min _ _ _

/-- A choice requires of a field what each of its alternatives does. -/
theorem lo_countChoice (parent : Cardinality) (counters : Counters) (alternatives : List Counters) (field : String) :
    ((counters.countChoice parent alternatives).of field).lo
      = (counters.of field).lo + parent.lo * (unionOf field alternatives).lo := by
  rw [countChoice_eq, of_foldl_count _ (nodup_eraseDups _)]
  split
  · rfl
  · next absent =>
    rw [List.mem_eraseDups] at absent
    rw [unionOf_of_not_mem absent]
    rfl

mutual
/-- The lower bound of a field counts the occurrences that are required. -/
theorem lo_countTerm (field : String) : ∀ (t : Term) (parent : Cardinality) (counters : Counters),
    ((countTerm parent counters t).of field).lo = (counters.of field).lo + parent.lo * required field t
  | .literal _, parent, counters => lo_count_one parent counters field ""
  | .regex _, parent, counters => lo_count_one parent counters field ""
  | .rule name, parent, counters => lo_count_one parent counters field (baseName name)
  | .backref name _, parent, counters => lo_count_one parent counters field name
  | .capture name _, parent, counters => lo_count_one parent counters field name
  | .seq ts, parent, counters => lo_countAll field ts parent counters
  | .choice ts, parent, counters => by
    rw [countTerm, lo_countChoice, lo_count_mark, lo_countEach field ts]
    rfl
  | .stack ts, parent, counters => by
    rw [countTerm, lo_countChoice, lo_count_mark, lo_countEach field ts]
    rfl
  | .list element separator _, parent, counters => by
    rw [countTerm, lo_countTerm field separator, lo_countTerm field element, lo_count_mark]
    simp [Cardinality.mul, Cardinality.bounded, Cardinality.oneOrMore, Cardinality.zeroOrMore, required]
  | .quant t min' max', parent, counters => by
    rw [countTerm, lo_countTerm field t, lo_count_mark]
    simp [Cardinality.mul, Cardinality.bounded, Cardinality.ofQuant, required, Nat.mul_assoc]
  | .cut t, parent, counters => lo_countTerm field t parent counters
  | .withRules t _, parent, counters => lo_countTerm field t parent counters

theorem lo_countAll (field : String) : ∀ (ts : List Term) (parent : Cardinality) (counters : Counters),
    ((countAll parent counters ts).of field).lo = (counters.of field).lo + parent.lo * requiredAll field ts
  | [], _, _ => rfl
  | t :: ts, parent, counters => by
    rw [countAll, lo_countAll field ts, lo_countTerm field t, requiredAll, Nat.mul_add, Nat.add_assoc]

theorem lo_countEach (field : String) : ∀ ts : List Term,
    (unionOf field (countEach ts)).lo = requiredLeast field ts
  | [] => rfl
  | [t] => by
    have here := lo_countTerm field t .once Table.empty
    simpa [countEach, unionOf, requiredLeast, Cardinality.once, lo_empty] using here
  | t :: u :: ts => by
    have here := lo_countTerm field t .once Table.empty
    have others := lo_countEach field (u :: ts)
    rw [countEach] at others
    rw [countEach, countEach, lo_unionOf_cons, others, here, requiredLeast]
    simp [Cardinality.once, lo_empty]
end

theorem lo_ofTerm (field : String) (t : Term) : ((ofTerm t).of field).lo = required field t := by
  rw [ofTerm, lo_countTerm, lo_empty, Nat.zero_add]
  exact Nat.one_mul _

/-- What the counters of a term say of a field. -/
theorem of_ofTerm (field : String) (t : Term) :
    (ofTerm t).of field = ⟨required field t, min (occurrences field t) 2⟩ := by
  rw [← lo_ofTerm, ← (ofTerm_spec t).2.1]

/-- A field that occurs once, and is required no more often, holds one value. -/
theorem isSingle_of_occurrences {field : String} {t : Term} (once : occurrences field t = 1)
    (few : required field t ≤ 1) : (ofTerm t).isSingle field = true := by
  rw [isSingle, of_ofTerm, once]
  rcases Nat.le_one_iff_eq_zero_or_eq_one.mp few with none | one
  · rw [none]
    rfl
  · rw [one]
    rfl

end GrammarKit.Generic.Counters
