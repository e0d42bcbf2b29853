/-
Module: GrammarKit.Proofs.Nullability
Purpose: Parsers that match without input are marked as such.  Marking goes on until nothing changes, so the
  marks are closed under the rule of every operator, and they are the least that are; a derivation that takes nothing
  follows these rules.
Main exports: Program.nullability_closed, Program.Nullable, Program.isMarked_iff, Program.Progress, Derives.isMarked,
  Program.nullability_covers
-/
import Mathlib.Data.Finset.Card
import GrammarKit.Program.Compile
import GrammarKit.Proofs.Derivation
import GrammarKit.Validation.Cycles

namespace GrammarKit
namespace Program

variable {p : Program}

/-! ### Marking until nothing changes -/

/-- All marks of the one are marks of the other, which are as many. -/
structure MarksLe (marks larger : Array Bool) : Prop where
  size : larger.size = marks.size
  keeps : ∀ id, isMarked marks id = true → isMarked larger id = true

theorem MarksLe.refl (marks : Array Bool) : MarksLe marks marks :=
  ⟨rfl, fun _ => id⟩

theorem MarksLe.trans {marks between larger : Array Bool} (h : MarksLe marks between)
    (h' : MarksLe between larger) : MarksLe marks larger :=
  ⟨h'.size.trans h.size, fun id marked => h'.keeps id (h.keeps id marked)⟩

theorem isMarked_set {marks : Array Bool} {id other : ParserId} (inside : id < marks.size) :
    isMarked (marks.setIfInBounds id true) other = (decide (id = other) || isMarked marks other) := by
  unfold isMarked
  rw [Array.getElem?_setIfInBounds]
  by_cases same : id = other
  · simp [same, same ▸ inside]
  · simp [same]

/-- Mark a parser if its operator may match without input. -/
def mark (marks : Array Bool) (entry : Parser × ParserId) : Array Bool :=
  if entry.1.operator.nullableFrom (isMarked marks) then marks.setIfInBounds entry.2 true else marks

theorem mark_le (marks : Array Bool) (entry : Parser × ParserId) : MarksLe marks (mark marks entry) := by
  unfold mark
  split
  · refine ⟨Array.size_setIfInBounds, fun id marked => ?_⟩
    by_cases inside : entry.2 < marks.size
    · rw [isMarked_set inside, marked, Bool.or_true]
    · rwa [Array.setIfInBounds, dif_neg inside]
  · exact .refl marks

theorem foldl_mark_le (entries : List (Parser × ParserId)) (marks : Array Bool) :
    MarksLe marks (entries.foldl mark marks) := by
  induction entries generalizing marks with
  | nil => exact .refl marks
  | cons entry entries ih => exact (mark_le marks entry).trans (ih _)

/-- If marking adds nothing, then there was nothing to add for any of the parsers. -/
theorem closed_of_stable {entries : List (Parser × ParserId)} {marks : Array Bool}
    (stable : MarksLe (entries.foldl mark marks) marks) {entry : Parser × ParserId} (member : entry ∈ entries)
    (inside : entry.2 < marks.size) (nullable : entry.1.operator.nullableFrom (isMarked marks) = true) :
    isMarked marks entry.2 = true := by
  induction entries generalizing marks with
  | nil => cases member
  | cons first entries ih =>
    -- the marks in between are the same as those at either end
    have back : MarksLe (mark marks first) marks := (foldl_mark_le entries _).trans stable
    have same : isMarked (mark marks first) = isMarked marks := by
      funext id
      have forth := (mark_le marks first).keeps id
      have back := back.keeps id
      cases h : isMarked (mark marks first) id <;> cases h' : isMarked marks id <;> simp_all
    rcases List.mem_cons.mp member with rfl | member
    · rw [← same, mark, if_pos nullable, isMarked_set inside]
      simp
    · have stable' : MarksLe (entries.foldl mark (mark marks first)) (mark marks first) :=
        stable.trans (mark_le marks first)
      rw [← same] at nullable ⊢
      exact ih stable' member (back.size ▸ inside) nullable

/-- The parsers that are not marked. -/
def unmarked (marks : Array Bool) : Finset Nat :=
  (Finset.range marks.size).filter (isMarked marks · = false)

theorem unmarked_lt {marks larger : Array Bool} (h : MarksLe marks larger) (changed : larger ≠ marks) :
    (unmarked larger).card < (unmarked marks).card := by
  refine Finset.card_lt_card ⟨fun id member => ?_, fun subset => changed ?_⟩
  · rw [unmarked, Finset.mem_filter, Finset.mem_range] at member ⊢
    refine ⟨h.size ▸ member.1, ?_⟩
    by_contra marked
    rw [h.keeps id ((Bool.not_eq_false _).mp marked)] at member
    cases member.2
  · refine Array.ext h.size fun id inside inside' => ?_
    have values : ∀ {marks : Array Bool} (inside : id < marks.size), isMarked marks id = marks[id] := by
      intro marks inside
      rw [isMarked, Array.getElem?_eq_getElem inside, Option.getD_some]
    rw [← values inside, ← values inside']
    cases marked : isMarked marks id with
    | true => exact h.keeps id marked
    | false =>
      have member : id ∈ unmarked marks := by
        rw [unmarked, Finset.mem_filter, Finset.mem_range]
        exact ⟨inside', marked⟩
      have := subset member
      rw [unmarked, Finset.mem_filter] at this
      exact this.2

/-- Enough rounds lead to marks that do not change any more, since each round before marks some parser. -/
theorem markUntilStable_stable {fuel : Nat} {marks : Array Bool} (enough : (unmarked marks).card < fuel) :
    p.markNullable (p.markUntilStable fuel marks) = p.markUntilStable fuel marks ∧
      (p.markUntilStable fuel marks).size = marks.size ∧
      ∃ rounds ≤ (unmarked marks).card, p.markUntilStable fuel marks = p.markNullable^[rounds] marks := by
  induction fuel generalizing marks with
  | zero => exact absurd enough (Nat.not_lt_zero _)
  | succ fuel ih =>
    rw [markUntilStable]
    have grows : MarksLe marks (p.markNullable marks) := foldl_mark_le _ marks
    by_cases same : p.markNullable marks = marks
    · simp only [same, if_true, true_and]
      exact ⟨0, Nat.zero_le _, rfl⟩
    · simp only [same, if_false]
      have fewer := unmarked_lt grows same
      obtain ⟨stable, size, rounds, few, reached⟩ := ih (Nat.lt_of_lt_of_le fewer (Nat.le_of_lt_succ enough))
      exact ⟨stable, size.trans grows.size, rounds + 1, Nat.lt_of_le_of_lt few fewer, reached⟩

/-- Marking ends by itself: after as many rounds as there are parsers, at most, a further one changes nothing. -/
theorem nullability_rounds (p : Program) :
    p.markNullable p.nullability = p.nullability ∧ p.nullability.size = p.parsers.size ∧
      ∃ rounds ≤ p.parsers.size, p.nullability = p.markNullable^[rounds] (Array.replicate p.parsers.size false) := by
  have few : (unmarked (Array.replicate p.parsers.size false)).card ≤ p.parsers.size := by
    refine Nat.le_trans (Finset.card_filter_le _ _) ?_
    rw [Finset.card_range, Array.size_replicate]
  obtain ⟨stable, size, rounds, le, reached⟩ := markUntilStable_stable (p := p) (Nat.lt_succ_of_le few)
  exact ⟨stable, size.trans Array.size_replicate, rounds, Nat.le_trans le few, reached⟩

/-- The marks are closed: a parser is marked if its operator may match without input, given the marks. -/
theorem nullability_closed {id : ParserId} {parser : Parser} (here : p.parsers[id]? = some parser)
    (nullable : parser.operator.nullableFrom (isMarked p.nullability) = true) :
    isMarked p.nullability id = true := by
  obtain ⟨stable, size, -⟩ := p.nullability_rounds
  obtain ⟨inside, found⟩ := Array.getElem?_eq_some_iff.mp here
  have member : (parser, id) ∈ p.parsers.toList.zipIdx := by
    rw [List.mem_zipIdx_iff_getElem?, Array.getElem?_toList]
    exact here
  have whole : MarksLe (p.parsers.toList.zipIdx.foldl mark p.nullability) p.nullability := by
    have stable : p.parsers.toList.zipIdx.foldl mark p.nullability = p.nullability := stable
    rw [stable]
    exact .refl _
  exact closed_of_stable whole member (size ▸ inside) nullable

/-! ### The least marks that are closed -/

/-- The parsers that may match without input, by one rule for each kind of operator. -/
inductive Nullable (p : Program) : ParserId → Prop
  | terminal {id label t} : p.parsers[id]? = some ⟨label, .terminal t⟩ → t.nullable = true → Nullable p id
  | call {id label target} : p.parsers[id]? = some ⟨label, .call target⟩ → Nullable p target → Nullable p id
  | cut {id label inner} : p.parsers[id]? = some ⟨label, .cut inner⟩ → Nullable p inner → Nullable p id
  | seq {id label items} : p.parsers[id]? = some ⟨label, .seq items⟩ →
      (∀ item ∈ items, Nullable p item.parser) → Nullable p id
  | choice {id label alternatives chosen} : p.parsers[id]? = some ⟨label, .choice alternatives⟩ →
      chosen ∈ alternatives → Nullable p chosen → Nullable p id
  | list {id label element separator style cutSeparator} :
      p.parsers[id]? = some ⟨label, .list element separator style cutSeparator⟩ → Nullable p element → Nullable p id
  | optional {id label term max} : p.parsers[id]? = some ⟨label, .quant term 0 max⟩ → Nullable p id
  | quant {id label term min max} : p.parsers[id]? = some ⟨label, .quant term min max⟩ → Nullable p term →
      Nullable p id
  | backref {id label name default} : p.parsers[id]? = some ⟨label, .backref name default⟩ → Nullable p id

/-- A parser that is to be marked next may match without input if those that are marked may. -/
theorem Nullable.of_nullableFrom {id : ParserId} {parser : Parser} (here : p.parsers[id]? = some parser)
    {marks : ParserId → Bool} (sound : ∀ id, marks id = true → p.Nullable id)
    (nullable : parser.operator.nullableFrom marks = true) : p.Nullable id := by
  obtain ⟨label, operator⟩ := parser
  cases operator with
  | pending name => cases nullable
  | terminal t => exact .terminal here nullable
  | call target => exact .call here (sound target nullable)
  | cut inner => exact .cut here (sound inner nullable)
  | seq items => exact .seq here fun item member => sound _ (List.all_eq_true.mp nullable item member)
  | choice alternatives =>
    obtain ⟨chosen, member, marked⟩ := List.any_eq_true.mp nullable
    exact .choice here member (sound chosen marked)
  | list element separator style cutSeparator => exact .list here (sound element nullable)
  | quant term min max =>
    rcases (Bool.or_eq_true _ _).mp nullable with none | marked
    · obtain rfl := eq_of_beq none
      exact .optional here
    · exact .quant here (sound term marked)
  | backref name default => exact .backref here

/-- A round of marking adds only parsers that may match without input. -/
theorem nullable_of_markNullable {marks : Array Bool} (sound : ∀ id, isMarked marks id = true → p.Nullable id) :
    ∀ id, isMarked (p.markNullable marks) id = true → p.Nullable id := by
  suffices ∀ entries ⊆ p.parsers.toList.zipIdx, ∀ id, isMarked (entries.foldl mark marks) id = true → p.Nullable id from
    this _ (List.Subset.refl _)
  intro entries
  induction entries generalizing marks with
  | nil => exact fun _ => sound
  | cons entry entries ih =>
    intro subset
    obtain ⟨member, others⟩ := List.cons_subset.mp subset
    refine ih (fun id marked => ?_) others
    rw [mark] at marked
    split at marked
    · next nullable =>
      rcases Decidable.em (entry.2 = id) with rfl | other
      · have here : p.parsers[entry.2]? = some entry.1 := by
          rw [← Array.getElem?_toList]
          exact List.mem_zipIdx_iff_getElem?.mp member
        exact .of_nullableFrom here sound nullable
      · rw [isMarked, Array.getElem?_setIfInBounds_ne other] at marked
        exact sound id marked
    · exact sound id marked

/-- Parsers that may match without input are in any set that is closed under the rules for operators. -/
theorem Nullable.least {P : ParserId → Prop} [DecidablePred P]
    (closed : ∀ {id : ParserId} {parser : Parser}, p.parsers[id]? = some parser →
      parser.operator.nullableFrom (fun id => decide (P id)) = true → P id)
    {id : ParserId} (nullable : p.Nullable id) : P id := by
  induction nullable with
  | terminal here known => exact closed here known
  | call here _ ih => exact closed here (decide_eq_true ih)
  | cut here _ ih => exact closed here (decide_eq_true ih)
  | seq here _ ih => exact closed here (List.all_eq_true.mpr fun item member => decide_eq_true (ih item member))
  | choice here member _ ih => exact closed here (List.any_eq_true.mpr ⟨_, member, decide_eq_true ih⟩)
  | list here _ ih => exact closed here (decide_eq_true ih)
  | optional here => exact closed here rfl
  | quant here _ ih => exact closed here (by rw [Operator.nullableFrom, decide_eq_true ih, Bool.or_true])
  | backref here => exact closed here rfl

/-- The marks are those of the parsers that may match without input. -/
theorem isMarked_iff {id : ParserId} : isMarked p.nullability id = true ↔ p.Nullable id := by
  constructor
  · obtain ⟨-, -, rounds, -, reached⟩ := p.nullability_rounds
    rw [reached]
    have first : ∀ id, isMarked (Array.replicate p.parsers.size false) id = true → p.Nullable id := by
      intro id marked
      unfold isMarked at marked
      rw [Array.getElem?_replicate] at marked
      split at marked <;> cases marked
    exact Function.Iterate.rec (fun marks => ∀ id, isMarked marks id = true → p.Nullable id) first
      (fun _ sound => nullable_of_markNullable sound) rounds id
  · exact fun nullable => nullable.least fun here marked => nullability_closed here (by simpa using marked)

end Program

/-! ### Terminals that take input -/

namespace Regex

/-- Whether some states, among them the one to start in, lead out of each other only by taking a character, and
none of them accepts. -/
def Machine.keepsInside (m : Machine) (early : List Nat) : Bool :=
  early.contains m.start && early.all fun state =>
    match m.states[state]? with
    | some (.split preferred other) => early.contains preferred && early.contains other
    | some (.record _ next) => early.contains next
    | some (.require _ next) => early.contains next
    | some .accept => false
    | _ => true

theorem Machine.keepsInside_invariant {m : Machine} {early : List Nat} (h : m.keepsInside early = true)
    (text : List Char) : m.Invariant text fun position state _ => position = 0 → state ∈ early := by
  simp only [keepsInside, Bool.and_eq_true, List.contains_iff_mem, List.all_eq_true] at h
  obtain ⟨first, closed⟩ := h
  refine ⟨fun _ => first, fun found here => ?_, fun found here zero => ?_, fun found here zero => ?_,
    fun _ _ _ _ zero => absurd zero (Nat.succ_ne_zero _)⟩
  · constructor <;> intro zero <;> have leads := closed _ (here zero) <;> simp [found] at leads
    · exact leads.1
    · exact leads.2
  · have leads := closed _ (here zero)
    simpa [found] using leads
  · have leads := closed _ (here zero)
    simpa [found] using leads

/-- A machine that cannot accept before it has taken a character matches only by taking some. -/
theorem rest_ne_of_keepsInside {re : Regex} {early : List Nat} (h : re.machine.keepsInside early = true)
    {s : Slice} {m : Match} (found : re.match? s = some m) : m.rest ≠ s := by
  simp only [match?, Option.map_eq_some_iff] at found
  obtain ⟨⟨length, slots⟩, ran, rfl⟩ := found
  obtain ⟨state, accepts, inside⟩ := (Machine.keepsInside_invariant h s.chars).run ran
  have taken : length ≠ 0 := by
    intro zero
    simp only [Machine.keepsInside, Bool.and_eq_true, List.all_eq_true] at h
    have leads := h.2 state (inside zero)
    simp [accepts] at leads
  intro same
  have shorter : s.chars.length - length = s.chars.length := by
    rw [← List.length_drop]
    exact congrArg (·.chars.length) same
  -- without characters the run ends where it begins
  have empty : s.chars = [] := List.eq_nil_of_length_eq_zero (by omega)
  simp only [Machine.run, empty, Machine.follow] at ran
  split at ran
  · exact taken (Prod.mk.inj (Option.some.inj ran)).1.symm
  · cases ran

end Regex

/-- Terminals take input, unless they are known to match without. -/
def Program.Progress (p : Program) : Prop :=
  ∀ ⦃id : ParserId⦄ ⦃label : Option String⦄ ⦃t : Terminal⦄, p.parsers[id]? = some ⟨label, .terminal t⟩ →
    t.nullable = false → ∀ ⦃s m⦄, t.regex.match? s = some m → m.rest ≠ s

/-- The same in bytes: terminals take at least one. -/
def Program.TakesBytes (p : Program) : Prop :=
  ∀ ⦃id : ParserId⦄ ⦃label : Option String⦄ ⦃t : Terminal⦄, p.parsers[id]? = some ⟨label, .terminal t⟩ →
    t.nullable = false → ∀ ⦃s m⦄, t.regex.match? s = some m → s.start < m.rest.start

theorem Program.takesBytes_iff {p : Program} : p.TakesBytes ↔ p.Progress := by
  constructor
  · intro takes id label t here unknown s m found stays
    have more := takes here unknown found
    rw [stays] at more
    exact Nat.lt_irrefl _ more
  · intro progress id label t here unknown s m found
    have follows := Regex.match?_follows found
    have moves := progress here unknown found
    exact Nat.lt_of_le_of_ne follows.start_le fun same => moves (follows.eq_of_start_eq same.symm)

/-- Whether no terminal can accept before it has taken a character, where the given states come before. -/
def Program.consumes (p : Program) (early : List Nat) : Bool :=
  p.parsers.toList.all fun parser =>
    match parser.operator with
    | .terminal t => t.regex.machine.keepsInside early
    | _ => true

theorem Program.progress_of_consumes {p : Program} {early : List Nat} (h : p.consumes early = true) :
    p.Progress := by
  intro id label t here _ s m found
  have member : ⟨label, .terminal t⟩ ∈ p.parsers.toList := by
    rw [Array.mem_toList_iff]
    exact Array.mem_of_getElem? here
  exact Regex.rest_ne_of_keepsInside (List.all_eq_true.mp h _ member) found

/-! ### Derivations that take nothing -/

section Nothing

variable {p : Program}

mutual
/-- A parser that takes nothing is marked. -/
theorem Derives.isMarked (progress : p.Progress) : ∀ {id s tree rest}, Derives p id s tree rest → rest = s →
    Program.isMarked p.nullability id = true
  | _, _, _, _, @Derives.terminal _ _ _ t _ _ here found, same => by
    refine Program.nullability_closed here ?_
    cases nullable : t.nullable with
    | true => exact nullable
    | false => exact absurd same (progress here nullable found)
  | _, _, _, _, .call here d, same => Program.nullability_closed here (d.isMarked progress same)
  | _, _, _, _, .cut here d, same => Program.nullability_closed here (d.isMarked progress same)
  | _, _, _, _, .seq here ds, same => by
    refine Program.nullability_closed here (List.all_eq_true.mpr fun item member => ?_)
    exact ds.isMarked progress same _ (List.mem_map_of_mem member)
  | _, _, _, _, .choice here chosen d, same => by
    refine Program.nullability_closed here (List.any_eq_true.mpr ?_)
    exact ⟨_, List.mem_of_getElem? chosen, d.isMarked progress same⟩
  | _, _, _, _, @Derives.quant _ _ _ _ least _ _ trees _ here enough _ ds, same => by
    refine Program.nullability_closed here ?_
    cases least with
    | zero => rfl
    | succ least =>
      have several : trees.length ≠ 0 := Nat.ne_of_gt (Nat.lt_of_lt_of_le (Nat.succ_pos least) enough)
      have inner := ds.isMarked progress same _ (List.mem_replicate.mpr ⟨several, rfl⟩)
      simp only [Operator.nullableFrom, inner, Bool.or_true]
  | _, _, _, _, .list here _ _ room ds, same =>
    Program.nullability_closed here (ds.isMarked progress same _ (mem_slotPattern room))
  | _, _, _, _, .backref here _, _ => Program.nullability_closed here rfl

theorem DerivesEach.isMarked (progress : p.Progress) : ∀ {ids s trees rest}, DerivesEach p ids s trees rest →
    rest = s → ∀ id, some id ∈ ids → Program.isMarked p.nullability id = true
  | _, _, _, _, .nil, _, _, member => nomatch member
  | _, _, _, _, .cons d ds, same, id, member => by
    obtain ⟨first, second⟩ := d.follows.eq_both ds.follows same
    rcases List.mem_cons.mp member with here | member
    · exact Option.some.inj here ▸ d.isMarked progress first
    · exact ds.isMarked progress second id member
  | _, _, _, _, .elided ds, same, id, member => by
    rcases List.mem_cons.mp member with here | member
    · cases here
    · exact ds.isMarked progress same id member
end

end Nothing

namespace Program

/-- **Nullability covers all matches without input.**  In every program, marking ends, after as many rounds as there are
parsers at most, and the marks are the least that are closed under the rules for the operators.  If each terminal that
is not known to match without input takes at least one byte whenever it matches, then every parser that matches and
leaves the input at the offset where it was is marked, in whatever context, at whatever place and to whatever depth it
runs. -/
theorem nullability_covers (p : Program) :
    (p.markNullable p.nullability = p.nullability ∧ p.nullability.size = p.parsers.size ∧
        ∃ rounds ≤ p.parsers.size, p.nullability = p.markNullable^[rounds] (Array.replicate p.parsers.size false)) ∧
      (∀ id, isMarked p.nullability id = true ↔ p.Nullable id) ∧
      (p.TakesBytes → ∀ depth id rule c s t tree rest t',
        p.recognizer depth id rule c s t = (.matched (tree, rest), t') → rest.start = s.start →
          isMarked p.nullability id = true) := by
  refine ⟨p.nullability_rounds, fun _ => isMarked_iff, fun takes depth id rule c s t tree rest t' matched same => ?_⟩
  have derived := p.recognizer_derives depth id matched
  exact derived.isMarked (takesBytes_iff.mp takes) (derived.follows.eq_of_start_eq same)

/-- Optional marks with commas between them, where the first and the last mark may be left out. -/
def optionalMarks : Grammar :=
  ⟨[("marks", .list (.quant (.literal "x") 0 1) (.literal ",") ⟨.flat, true, true⟩)]⟩

/-- Without input, the list of marks matches: it has one mark, which takes nothing. -/
theorem nullability_covers_optionalMarks : ∃ p slot, ofGrammar optionalMarks = .ok p ∧
    p.rules.get? "marks" = some slot ∧ p.TakesBytes ∧
    (∃ tree rest t', p.start slot "marks" (.ofText "") = (.matched (tree, rest), t') ∧ rest.start = 0) ∧
    isMarked p.nullability slot = true := by
  have checked : (ofGrammar optionalMarks).toOption.any (fun p => p.consumes [2, 3, 4] &&
      (p.rules.get? "marks").any fun slot => match p.start slot "marks" (.ofText "") with
        | (.matched (_, rest), _) => rest.start == 0
        | _ => false) = true := by
    decide +kernel
  cases compiled : ofGrammar optionalMarks with
  | error e =>
    rw [compiled] at checked
    cases checked
  | ok p =>
    simp only [compiled, Except.toOption, Option.any_some, Bool.and_eq_true, Option.any_eq_true] at checked
    obtain ⟨consumes, slot, listed, matched⟩ := checked
    have takes := takesBytes_iff.mpr (progress_of_consumes consumes)
    split at matched
    · next tree rest t' ran =>
      have start := eq_of_beq matched
      have marked := (nullability_covers p).2.2 takes _ slot "marks" _ _ _ tree rest t' ran start
      exact ⟨p, slot, rfl, listed, takes, ⟨tree, rest, t', ran, start⟩, marked⟩
    · cases matched

end Program
end GrammarKit
