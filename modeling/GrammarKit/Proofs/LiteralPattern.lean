/-
Module: GrammarKit.Proofs.LiteralPattern
Purpose: The patterns of literals.  A literal is escaped character by character, so that reading the pattern
  of its terminal gives a sequence of characters inside the one group of the terminal.
Main exports: Regex.bare_of_literal
-/
import GrammarKit.Program.Padding
import GrammarKit.Proofs.GroupSpan
import GrammarKit.Proofs.Results

namespace GrammarKit.Regex

/-! ### Sequences of characters -/

/-- A sequence of characters and sets of characters. -/
def Pattern.Simple : Pattern → Prop
  | .empty => True
  | .literal _ => True
  | .set _ => True
  | .seq p q => p.Simple ∧ q.Simple
  | _ => False

namespace Pattern

theorem Simple.groupCount : ∀ {p : Pattern}, p.Simple → p.groupCount = 0
  | .empty, _ => rfl
  | .literal _, _ => rfl
  | .set _, _ => rfl
  | .seq p q, ⟨first, second⟩ => by
    rw [Pattern.groupCount, first.groupCount, second.groupCount]

theorem simple_literal (flags : Flags) (c : Char) : (flags.literal c).Simple := by
  unfold Flags.literal ofSet
  split
  · split <;> trivial
  · trivial

theorem Simple.elements : ∀ {p : Pattern}, p.Simple → ∀ q ∈ p.elements, q.Simple
  | .empty, _, _, member => nomatch member
  | .literal _, h, _, member => List.mem_singleton.mp member ▸ h
  | .set _, h, _, member => List.mem_singleton.mp member ▸ h
  | .seq _ _, ⟨first, second⟩, q, member => by
    rcases List.mem_cons.mp member with rfl | member
    · exact first
    · exact second.elements q member

theorem Simple.prepend {p q : Pattern} (h : p.Simple) (h' : q.Simple) : (p.prepend q).Simple := by
  unfold Pattern.prepend
  split
  · trivial
  · exact ⟨trivial, h'.2⟩
  · exact h
  · exact ⟨h, h'⟩

theorem simple_sequence {ps : List Pattern} (each : ∀ p ∈ ps, p.Simple) : (sequence ps).Simple := by
  have parts : ∀ q ∈ ps.flatMap Pattern.elements, q.Simple := by
    intro q member
    obtain ⟨p, inside, member⟩ := List.mem_flatMap.mp member
    exact (each p inside).elements q member
  unfold sequence
  generalize ps.flatMap Pattern.elements = parts' at parts
  induction parts' with
  | nil => trivial
  | cons p parts' ih =>
    have others := ih fun q member => parts q (List.mem_cons_of_mem _ member)
    exact (parts p List.mem_cons_self).prepend others

/-- A choice with one alternative, which is no choice, is that alternative. -/
theorem Simple.choice {p : Pattern} (h : p.Simple) : Pattern.choice [p] = p := by
  have single : [p].flatMap alternatives = [p] := by
    cases p with
    | alt _ _ => exact h.elim
    | _ => rfl
  have fuel : [p].foldl (fun n p => n + p.size) 1 = p.size + 1 := Nat.add_comm _ _
  rw [Pattern.choice, fuel, choiceWithin, single]

end Pattern

/-! ### Reading a literal -/

/-- The flags inside the pattern of a terminal. -/
def inside : Flags := { multiLine := true }

/-- The characters of a pattern that stand for a text. -/
def escaped (cs : List Char) : List Char :=
  cs.flatMap fun c => if isMeta c then ['\\', c] else [c]

theorem read_meta {flags : Flags} (terse : flags.verbose = false) {c : Char} (special : isMeta c = true) (fuel : Nat)
    (done : List Part) (items : Items) (rest : List Char) (groups : Nat) (names : List (List Char)) :
    readAlternatives (fuel + 1) done items ⟨'\\' :: c :: rest, flags, groups, names⟩
      = readAlternatives fuel done (some ⟨flags.literal c, 0⟩ :: items) ⟨rest, flags, groups, names⟩ := by
  obtain ⟨ignoreCase, multiLine, dotAll, swapGreed, unicode, _, crlf⟩ := flags
  subst terse
  simp only [isMeta, List.contains_eq_mem, decide_eq_true_eq, List.mem_cons, List.not_mem_nil, or_false] at special
  rcases special with rfl | rfl | rfl | rfl | rfl | rfl | rfl | rfl | rfl | rfl | rfl | rfl | rfl | rfl |
    rfl | rfl | rfl | rfl <;> rfl

/-- A character without a meaning of its own is an item that stands for itself. -/
theorem readItem_plain {c : Char} (plain : isMeta c = false) (flags : Flags) (rest : List Char) :
    readItem flags (c :: rest) = .ok (flags.literal c, rest) := by
  unfold readItem
  split
  case h_1 nothing => cases nothing
  case h_6 starts =>
    obtain ⟨rfl, rfl⟩ := List.cons.inj starts
    rfl
  all_goals
    next starts =>
      obtain ⟨rfl, -⟩ := List.cons.inj starts
      cases plain

theorem read_plain {flags : Flags} (terse : flags.verbose = false) {c : Char} (plain : isMeta c = false) (fuel : Nat)
    (done : List Part) (items : Items) (rest : List Char) (groups : Nat) (names : List (List Char)) :
    readAlternatives (fuel + 1) done items ⟨c :: rest, flags, groups, names⟩
      = readAlternatives fuel done (some ⟨flags.literal c, 0⟩ :: items) ⟨rest, flags, groups, names⟩ := by
  have skip : flags.skip (c :: rest) = c :: rest := by simp [Flags.skip, terse]
  rw [readAlternatives]
  simp only [skip]
  split
  · next nothing => cases nothing
  all_goals
    try
      next starts =>
        obtain ⟨rfl, -⟩ := List.cons.inj starts
        cases plain
  rw [readItem_plain plain]
  rfl

/-- The items that the characters of a text are read as, the last one first. -/
def itemsOf (cs : List Char) : Items :=
  (cs.map fun c => some ⟨inside.literal c, 0⟩).reverse

/-- The characters of a literal are read up to the bracket that closes the group of the terminal. -/
theorem read_escaped (cs : List Char) {fuel : Nat} (enough : (escaped cs).length < fuel) (items : Items)
    (after : List Char) (groups : Nat) (names : List (List Char)) :
    readAlternatives fuel [] items ⟨escaped cs ++ ')' :: after, inside, groups, names⟩
      = .ok (choiceOf [] (sequenceOf (itemsOf cs ++ items)), ⟨')' :: after, inside, groups, names⟩) := by
  induction cs generalizing fuel items with
  | nil =>
    obtain ⟨fuel, rfl⟩ := Nat.exists_eq_succ_of_ne_zero (Nat.ne_zero_of_lt enough)
    rfl
  | cons c cs ih =>
    obtain ⟨fuel, rfl⟩ := Nat.exists_eq_succ_of_ne_zero (Nat.ne_zero_of_lt enough)
    have first : itemsOf (c :: cs) ++ items = itemsOf cs ++ some ⟨inside.literal c, 0⟩ :: items := by
      simp [itemsOf]
    rw [first]
    by_cases special : isMeta c = true
    · have text : escaped (c :: cs) = '\\' :: c :: escaped cs := by simp [escaped, special]
      rw [text] at enough ⊢
      simp only [List.length_cons] at enough
      rw [List.cons_append, List.cons_append, read_meta rfl special]
      exact ih (by omega) _
    · have plain : isMeta c = false := (Bool.not_eq_true _).mp special
      have text : escaped (c :: cs) = c :: escaped cs := by simp [escaped, plain]
      rw [text] at enough ⊢
      simp only [List.length_cons] at enough
      rw [List.cons_append, read_plain rfl plain]
      exact ih (by omega) _

/-- The characters of a text make a sequence. -/
theorem simple_itemsOf (cs : List Char) : (choiceOf [] (sequenceOf (itemsOf cs))).pattern.Simple := by
  have sequence : (sequenceOf (itemsOf cs)).pattern.Simple := by
    refine Pattern.simple_sequence fun p member => ?_
    obtain ⟨item, listed, value⟩ := List.mem_filterMap.mp member
    rw [List.mem_reverse, itemsOf, List.mem_reverse] at listed
    obtain ⟨c, -, rfl⟩ := List.mem_map.mp listed
    obtain rfl := Option.some.inj value
    exact Pattern.simple_literal inside c
  have single : (choiceOf [] (sequenceOf (itemsOf cs))).pattern = (sequenceOf (itemsOf cs)).pattern := sequence.choice
  rw [single]
  exact sequence

/-- The start of the pattern of a terminal. -/
theorem read_start (fuel : Nat) (rest : List Char) :
    readAlternatives (fuel + 2) [] [] ⟨'(' :: '?' :: 'm' :: ')' :: '\\' :: 'A' :: rest, {}, 0, []⟩
      = readAlternatives fuel [] [some ⟨.assertion .textStart, 0⟩, none] ⟨rest, inside, 0, []⟩ :=
  rfl

/-- No literal begins like a group with flags. -/
theorem head_escaped (cs after : List Char) (rest : List Char) :
    escaped cs ++ ')' :: after ≠ '?' :: rest := by
  cases cs with
  | nil => exact fun same => absurd (List.cons.inj same).1 (by decide)
  | cons c cs =>
    by_cases special : isMeta c = true
    · have text : escaped (c :: cs) = '\\' :: c :: escaped cs := by simp [escaped, special]
      rw [text]
      exact fun same => absurd (List.cons.inj same).1 (by decide)
    · have plain : isMeta c = false := (Bool.not_eq_true _).mp special
      have text : escaped (c :: cs) = c :: escaped cs := by simp [escaped, plain]
      rw [text]
      intro same
      obtain ⟨rfl, -⟩ := List.cons.inj same
      cases plain

/-- An opening bracket that no question mark follows begins a group. -/
theorem readOpening_group {cs : List Char} (noFlags : ∀ rest, cs ≠ '?' :: rest) (start : List Char) :
    readOpening ⟨start, inside, 0, []⟩ cs = .ok (.group (some 1) ⟨cs, inside, 1, []⟩) := by
  have skip : inside.skip cs = cs := rfl
  unfold readOpening
  simp only [skip]
  split
  case h_9 => rfl
  all_goals exact absurd rfl (noFlags _)

theorem toList_terminalPattern (text : String) :
    (terminalPattern (.literal text) none).toList
      = '(' :: '?' :: 'm' :: ')' :: '\\' :: 'A' :: '(' :: (escaped text.toList ++ [')']) := by
  simp [terminalPattern, groupedPattern, escape, escaped]

/-- A group with its inside is one item. -/
theorem read_group {fuel : Nat} {cs after : List Char} (noFlags : ∀ rest, cs ≠ '?' :: rest) (items : Items)
    {inner : Part} {groups : Nat} {names : List (List Char)}
    (h : readAlternatives fuel [] [] ⟨cs, inside, 1, []⟩ = .ok (inner, ⟨')' :: after, inside, groups, names⟩)) :
    readAlternatives (fuel + 1) [] items ⟨'(' :: cs, inside, 0, []⟩
      = readAlternatives fuel [] (some ⟨.group 1 inner.pattern, inner.depth + 1⟩ :: items)
          ⟨after, inside, groups, names⟩ := by
  rw [readAlternatives]
  show (readOpening ⟨'(' :: cs, inside, 0, []⟩ cs >>= _) = _
  rw [readOpening_group noFlags]
  show (readAlternatives fuel [] [] ⟨cs, inside, 1, []⟩ >>= _) = _
  rw [h]
  rfl

/-- The terminal of a literal has no groups of its own. -/
theorem bare_of_literal {text : String} {p : Pattern}
    (read : Pattern.read (terminalPattern (.literal text) none).toList = .ok p) : p.Bare := by
  rw [toList_terminalPattern, Pattern.read] at read
  obtain ⟨⟨part, after⟩, found, read⟩ := Except.bind_eq_ok read
  have enough : (escaped text.toList).length < (escaped text.toList).length + 6 := by omega
  have group := read_escaped text.toList enough [] [] 1 []
  rw [List.append_nil] at group
  have length : ('(' :: '?' :: 'm' :: ')' :: '\\' :: 'A' :: '(' :: (escaped text.toList ++ [')'])).length + 1
      = ((escaped text.toList).length + 6 + 1) + 2 := by
    simp only [List.length_cons, List.length_append, List.length_nil]
  rw [length, read_start, read_group (head_escaped _ _) _ group, readAlternatives] at found
  obtain ⟨rfl, rfl⟩ := Prod.mk.inj (Except.ok.inj found)
  refine ⟨_, (simple_itemsOf text.toList).groupCount, ?_⟩
  simp only [List.isEmpty_nil, Bool.not_true, Bool.false_eq_true, if_false] at read
  split at read
  · cases read
  · exact (Except.ok.inj read).symm

end GrammarKit.Regex
