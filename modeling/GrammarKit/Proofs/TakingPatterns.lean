/-
Module: GrammarKit.Proofs.TakingPatterns
Purpose: Patterns that need a character.  A match of such a pattern takes input; and whether a pattern that has been
  read from its text needs a character can be told from the items read, without a look into classes of characters.
Main exports: Pattern.takes, rest_ne_of_takes, Pattern.takes_sequence, Pattern.takes_choice, read_padded
-/
import GrammarKit.Proofs.LiteralPattern
import GrammarKit.Proofs.PatternPaths

namespace GrammarKit.Regex

/-! ### Patterns -/

/-- Whether a pattern needs a character. -/
def Pattern.takes : Pattern → Bool
  | .literal cs => !cs.isEmpty
  | .set _ => true
  | .group _ p => p.takes
  | .seq p q => p.takes || q.takes
  | .alt p q => p.takes && q.takes
  | .repetition p min _ _ => min != 0 && p.takes
  | _ => false

namespace Pattern

theorem takes_ofSet (s : Unicode.CharSet) : (ofSet s).takes = true := by
  unfold ofSet
  split <;> rfl

theorem takes_prepend (p q : Pattern) : (p.prepend q).takes = (p.takes || q.takes) := by
  unfold prepend
  split
  · next text more => cases text <;> cases more <;> rfl
  · next text more rest => cases text <;> cases more <;> rfl
  · exact (Bool.or_false _).symm
  · rfl

theorem takes_elements : ∀ p : Pattern, p.takes = p.elements.any takes
  | .empty => rfl
  | .seq p q => by rw [takes, elements, List.any_cons, takes_elements q]
  | .literal _ | .set _ | .assertion _ | .group _ _ | .alt _ _ | .repetition _ _ _ _ => by simp [elements]

/-- A sequence needs a character if one of its parts does. -/
theorem takes_sequence (ps : List Pattern) : (sequence ps).takes = ps.any takes := by
  have parts : ∀ qs : List Pattern, (qs.foldr prepend empty).takes = qs.any takes := by
    intro qs
    induction qs with
    | nil => rfl
    | cons q qs ih => rw [List.foldr_cons, takes_prepend, ih, List.any_cons]
  rw [sequence, parts, List.any_flatMap]
  congr 1
  funext p
  exact (takes_elements p).symm

theorem takes_alternatives : ∀ {p : Pattern}, p.takes = true → ∀ q ∈ p.alternatives, q.takes = true
  | .alt p q, h, r, member => by
    obtain ⟨first, second⟩ := (Bool.and_eq_true _ _).mp h
    rcases List.mem_cons.mp member with rfl | member
    · exact first
    · exact takes_alternatives second r member
  | .empty, h, _, member | .literal _, h, _, member | .set _, h, _, member | .assertion _, h, _, member
  | .group _ _, h, _, member | .seq _ _, h, _, member | .repetition _ _ _ _, h, _, member =>
    List.mem_singleton.mp member ▸ h

theorem takes_ofAlternatives : ∀ {ps : List Pattern}, (∀ p ∈ ps, p.takes = true) → (ofAlternatives ps).takes = true
  | [], _ => rfl
  | [p], h => h p List.mem_cons_self
  | p :: q :: ps, h => by
    rw [ofAlternatives, takes, h p List.mem_cons_self, Bool.true_and]
    exact takes_ofAlternatives fun r member => h r (.tail _ member)
    exact nofun

theorem commonStart_prefix (ps qs : List Pattern) : commonStart ps qs <+: ps ∧ commonStart ps qs <+: qs := by
  induction ps generalizing qs with
  | nil => exact ⟨List.nil_prefix, List.nil_prefix⟩
  | cons p ps ih =>
    cases qs with
    | nil => exact ⟨List.nil_prefix, List.nil_prefix⟩
    | cons q qs =>
      rw [commonStart]
      split
      · next same =>
        subst same
        obtain ⟨left, right⟩ := ih qs
        exact ⟨List.cons_prefix_cons.mpr ⟨rfl, left⟩, List.cons_prefix_cons.mpr ⟨rfl, right⟩⟩
      · exact ⟨List.nil_prefix, List.nil_prefix⟩

theorem foldl_commonStart_prefix (ps : List Pattern) (start : List Pattern) :
    ps.foldl (fun start q => commonStart start q.elements) start <+: start ∧
      ∀ p ∈ ps, ps.foldl (fun start q => commonStart start q.elements) start <+: p.elements := by
  induction ps generalizing start with
  | nil => exact ⟨List.prefix_rfl, nofun⟩
  | cons p ps ih =>
    obtain ⟨whole, each⟩ := ih (commonStart start p.elements)
    obtain ⟨left, right⟩ := commonStart_prefix start p.elements
    refine ⟨whole.trans left, fun q member => ?_⟩
    rcases List.mem_cons.mp member with rfl | member
    · exact whole.trans right
    · exact each q member

theorem sharedStart_prefix {ps : List Pattern} {p : Pattern} (member : p ∈ ps) : sharedStart ps <+: p.elements := by
  cases ps with
  | nil => cases member
  | cons q ps =>
    rw [sharedStart]
    split
    · obtain ⟨whole, each⟩ := foldl_commonStart_prefix ps q.elements
      rcases List.mem_cons.mp member with rfl | member
      · exact whole
      · exact each p member
    · exact List.nil_prefix

theorem takes_choiceWithin (fuel : Nat) {ps : List Pattern} (each : ∀ p ∈ ps, p.takes = true) :
    (choiceWithin fuel ps).takes = true := by
  induction fuel generalizing ps with
  | zero => exact takes_ofAlternatives each
  | succ fuel ih =>
    have parts : ∀ q ∈ ps.flatMap alternatives, q.takes = true := by
      intro q member
      obtain ⟨p, inside, member⟩ := List.mem_flatMap.mp member
      exact takes_alternatives (each p inside) q member
    rw [choiceWithin]
    generalize ps.flatMap alternatives = ps at parts
    split
    · rfl
    · next p => exact parts p List.mem_cons_self
    · split
      · exact takes_ofSet _
      · exact takes_ofSet _
      · dsimp only
        split
        · exact takes_ofAlternatives parts
        · rw [takes_sequence, List.any_append, Bool.or_eq_true, List.any_cons, List.any_nil, Bool.or_false]
          -- what is taken out of the alternatives takes a character, or else all that is left of them do
          by_cases start : (sharedStart ps).any takes = true
          · exact .inl start
          · refine .inr (ih fun r member => ?_)
            obtain ⟨p, inside, rfl⟩ := List.mem_map.mp member
            obtain ⟨rest, split⟩ := sharedStart_prefix inside
            have whole := parts p inside
            rw [takes_elements, ← split, List.any_append, Bool.or_eq_true] at whole
            rw [takes_sequence, ← split, List.drop_left]
            exact whole.resolve_left start

/-- A choice needs a character if all its alternatives do. -/
theorem takes_choice {ps : List Pattern} (each : ∀ p ∈ ps, p.takes = true) : (choice ps).takes = true :=
  takes_choiceWithin _ each

theorem isEmptyWidth_ofSet (s : Unicode.CharSet) : (ofSet s).isEmptyWidth = false := by
  unfold ofSet
  split <;> rfl

/-- A repetition that is not left out needs a character if the repeated pattern does. -/
theorem takes_repeated {p : Pattern} (width : p.isEmptyWidth = false) {min : Nat} (needed : min ≠ 0) (greedy : Bool) :
    (p.repeated min none greedy).takes = p.takes := by
  simp [repeated, width, takes, needed]

end Pattern

/-! ### Matches -/

section Ways

variable {text : List Char}

/-- A way over a text goes forward, not beyond the end, and over a character if there is one to be taken. -/
structure Forward (text : List Char) (takes : Bool) (a b : Point) : Prop where
  le : a.1 ≤ b.1
  lt : takes = true → a.1 < b.1
  inside : a.1 ≤ text.length → b.1 ≤ text.length

theorem Forward.stay (a : Point) : Forward text false a a :=
  ⟨Nat.le_refl _, nofun, id⟩

theorem Forward.trans {takes takes' : Bool} {a b c : Point} (h : Forward text takes a b)
    (h' : Forward text takes' b c) : Forward text (takes || takes') a c := by
  refine ⟨Nat.le_trans h.le h'.le, fun either => ?_, fun begins => h'.inside (h.inside begins)⟩
  rcases (Bool.or_eq_true _ _).mp either with first | second
  · exact Nat.lt_of_lt_of_le (h.lt first) h'.le
  · exact Nat.lt_of_le_of_lt h.le (h'.lt second)

theorem Forward.weaken {takes takes' : Bool} {a b : Point} (h : Forward text takes a b)
    (weaker : takes' = true → takes = true) : Forward text takes' a b :=
  ⟨h.le, fun needed => h.lt (weaker needed), h.inside⟩

theorem Forward.rounds {R : Point → Point → Prop} {takes : Bool} (each : ∀ {a b}, R a b → Forward text takes a b)
    {n : Nat} {a b : Point} (rounds : Rounds R n a b) : Forward text (n != 0 && takes) a b := by
  induction rounds with
  | none => exact .stay _
  | more first _ ih => exact ((each first).trans ih).weaken (by simp_all)

theorem Pattern.Leads.forward : ∀ {p : Pattern} {a b : Point}, p.Leads text a b → Forward text p.takes a b
  | .empty, a, _, rfl => .stay a
  | .assertion _, a, _, rfl => .stay a
  | .literal cs, a, _, ⟨pre, rfl⟩ => by
    have length := pre.length_le
    rw [List.length_drop] at length
    refine ⟨Nat.le_add_right _ _, fun some => ?_, fun begins => by simp only; omega⟩
    have : cs.length ≠ 0 := by
      intro nothing
      rw [List.length_eq_zero_iff.mp nothing] at some
      cases some
    simp only
    omega
  | .set _, a, _, ⟨c, char, _, rfl⟩ =>
    ⟨Nat.le_succ _, fun _ => Nat.lt_succ_self _, fun _ => (List.getElem?_eq_some_iff.mp char).1⟩
  | .group _ p, a, b, ⟨slots, way, _⟩ => ⟨(forward way).le, (forward way).lt, (forward way).inside⟩
  | .seq p q, _, _, ⟨_, first, second⟩ => (forward first).trans (forward second)
  | .alt p q, _, _, .inl way => (forward way).weaken fun both => ((Bool.and_eq_true _ _).mp both).1
  | .alt p q, _, _, .inr way => (forward way).weaken fun both => ((Bool.and_eq_true _ _).mp both).2
  | .repetition p min _ _, _, _, ⟨n, enough, _, rounds⟩ => by
    apply (Forward.rounds (fun way => forward (p := p) way) rounds).weaken
    intro needed
    simp only [takes, Bool.and_eq_true, bne_iff_ne] at needed ⊢
    exact ⟨by omega, needed.2⟩

/-- A pattern that needs a character does not match without. -/
theorem rest_ne_of_takes {p : Pattern} {m : Machine} (made : Machine.ofPattern? p = some m) (takes : p.takes = true)
    {s : Slice} {found : Match} (matched : match? ⟨m⟩ s = some found) : found.rest ≠ s := by
  obtain ⟨⟨length, slots⟩, ran, rfl⟩ := Option.map_eq_some_iff.mp matched
  have forward := (Machine.leads_of_run made ran).forward
  have taken : 0 < length := forward.lt takes
  have inside : length ≤ s.chars.length := forward.inside (Nat.zero_le _)
  intro same
  have shorter : s.chars.length - length = s.chars.length := by
    rw [← List.length_drop]
    exact congrArg (·.chars.length) same
  omega

end Ways

/-! ### Reading, step by step -/

/-- A pattern in a group, with the number of the group if it records. -/
def inGroup (index : Option Nat) (p : Pattern) : Pattern :=
  match index with
  | some i => .group i p
  | none => p

section Steps

variable {fuel : Nat} {done : List Part} {items : Items} {rest : List Char} {groups : Nat} {names : List (List Char)}

theorem read_end : readAlternatives (fuel + 1) done items ⟨[], inside, groups, names⟩
    = .ok (choiceOf done (sequenceOf items), ⟨[], inside, groups, names⟩) := rfl

theorem read_close : readAlternatives (fuel + 1) done items ⟨')' :: rest, inside, groups, names⟩
    = .ok (choiceOf done (sequenceOf items), ⟨')' :: rest, inside, groups, names⟩) := rfl

theorem read_bar : readAlternatives (fuel + 1) done items ⟨'|' :: rest, inside, groups, names⟩
    = readAlternatives fuel (sequenceOf items :: done) [] ⟨rest, inside, groups, names⟩ := rfl

/-- The classes of digits, blanks and word characters are items. -/
theorem read_shorthand {c : Char} (short : c = 'd' ∨ c = 's' ∨ c = 'w') :
    readAlternatives (fuel + 1) done items ⟨'\\' :: c :: rest, inside, groups, names⟩
      = readAlternatives fuel done (some ⟨.ofSet (shorthand inside c), 0⟩ :: items) ⟨rest, inside, groups, names⟩ := by
  rcases short with rfl | rfl | rfl <;> rfl

/-- A repetition takes as many as possible unless a question mark follows. -/
theorem repeatLast_greedy {p : Part} {rest : List Char} (greedy : ∀ more, rest ≠ '?' :: more) {min : Nat}
    {max : Option Nat} {items : Items} :
    repeatLast inside min max (some p :: items) rest
      = .ok (some ⟨p.pattern.repeated min max true, p.depth + 1⟩ :: items, rest) := by
  unfold repeatLast
  dsimp only
  split
  · exact absurd rfl (greedy _)
  · rfl

/-- Any number of repetitions of the last item, as many as possible. -/
theorem read_star {p : Part} (greedy : ∀ more, rest ≠ '?' :: more) :
    readAlternatives (fuel + 1) done (some p :: items) ⟨'*' :: rest, inside, groups, names⟩
      = readAlternatives fuel done (some ⟨p.pattern.repeated 0 none true, p.depth + 1⟩ :: items)
          ⟨rest, inside, groups, names⟩ := by
  rw [readAlternatives]
  show (repeatLast inside 0 none (some p :: items) rest >>= _) = _
  rw [repeatLast_greedy greedy]
  rfl

/-- At least one repetition of the last item, as many as possible. -/
theorem read_plus {p : Part} (greedy : ∀ more, rest ≠ '?' :: more) :
    readAlternatives (fuel + 1) done (some p :: items) ⟨'+' :: rest, inside, groups, names⟩
      = readAlternatives fuel done (some ⟨p.pattern.repeated 1 none true, p.depth + 1⟩ :: items)
          ⟨rest, inside, groups, names⟩ := by
  rw [readAlternatives]
  show (repeatLast inside 1 none (some p :: items) rest >>= _) = _
  rw [repeatLast_greedy greedy]
  rfl

/-- A class in square brackets is an item. -/
theorem read_class {cs : List Char} {part : ClassPart} (read : readClass inside cs = .ok (part, rest)) :
    readAlternatives (fuel + 1) done items ⟨'[' :: cs, inside, groups, names⟩
      = readAlternatives fuel done (some ⟨.ofSet part.set, part.depth⟩ :: items) ⟨rest, inside, groups, names⟩ := by
  rw [readAlternatives]
  show (readClass inside cs >>= _) = _
  rw [read]
  rfl

/-- A group is an item. -/
theorem read_bracket {cs cs' : List Char} {index : Option Nat} {groups' groups'' : Nat}
    {names' names'' : List (List Char)} {inner : Part}
    (opening : readOpening ⟨'(' :: cs, inside, groups, names⟩ cs
      = .ok (.group index ⟨cs', inside, groups', names'⟩))
    (read : readAlternatives fuel [] [] ⟨cs', inside, groups', names'⟩
      = .ok (inner, ⟨')' :: rest, inside, groups'', names''⟩)) :
    readAlternatives (fuel + 1) done items ⟨'(' :: cs, inside, groups, names⟩
      = readAlternatives fuel done
          (some ⟨inGroup index inner.pattern, inner.depth + 1⟩ :: items)
          ⟨rest, inside, groups'', names''⟩ := by
  rw [readAlternatives]
  show (readOpening ⟨'(' :: cs, inside, groups, names⟩ cs >>= _) = _
  rw [opening]
  show (readAlternatives fuel [] [] ⟨cs', inside, groups', names'⟩ >>= _) = _
  rw [read]
  rfl

/-- An opening bracket that no question mark follows begins a group that records. -/
theorem readOpening_inside {cs : List Char} (noFlags : ∀ more, cs ≠ '?' :: more) (start : List Char) :
    readOpening ⟨start, inside, groups, names⟩ cs
      = .ok (.group (some (groups + 1)) ⟨cs, inside, groups + 1, names⟩) := by
  have skip : inside.skip cs = cs := rfl
  unfold readOpening
  simp only [skip]
  split
  case h_9 => rfl
  all_goals exact absurd rfl (noFlags _)

end Steps

end GrammarKit.Regex
