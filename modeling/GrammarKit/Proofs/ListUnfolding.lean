/-
Module: GrammarKit.Proofs.ListUnfolding
Purpose: Lists do what they stand for.  The loop of a list finds pairs for as long as a repetition of pairs does, and
  what is left to it then is what an optional separator finds after the repetition; so a list agrees with the choice
  that it can be written out as, for all judges of its element and its separator that agree.
Main exports: Judge.listTail_repeats, Judge.unfolds_rest, Judge.list_unfolds
-/
import GrammarKit.Proofs.VerdictAgreement

namespace GrammarKit

/-! ### Lists and repetitions -/

namespace Judge

/-- An item that nothing follows. -/
theorem sequenceFrom_last (run : Judge) (b : Texts) (s : Slice) :
    sequenceFrom [plain run] false b s = (run b s).andThen (fun found => .matched ([found.1], found.2)) .failed := by
  rw [sequenceFrom_plain]
  cases run b s <;> rfl

theorem padRepetitions_zero (trees : Array Tree) (tree : Tree) :
    Recognizer.padRepetitions 0 trees tree = trees.push tree := by
  have once : max (trees.size + 1) 0 - trees.size = 1 := by omega
  rw [Recognizer.padRepetitions, once]
  rfl

theorem odd_push {slots : Array Tree} (odd : ∃ left, slots.toList.length = 2 * left + 1) (mark tree : Tree) :
    ∃ left, ((slots.push mark).push tree).toList.length = 2 * left + 1 := by
  obtain ⟨left, odd⟩ := odd
  refine ⟨left + 1, ?_⟩
  rw [Array.toList_push, Array.toList_push, List.length_append, List.length_append, odd]
  simp only [List.length_singleton]
  omega

theorem chars_push (slots : Array Tree) (mark tree : Tree) : ((slots.push mark).push tree).toList.flatMap Tree.chars
    = slots.toList.flatMap Tree.chars ++ (mark.chars ++ tree.chars) := by
  rw [Array.toList_push, Array.toList_push, List.flatMap_append, List.flatMap_append, List.flatMap_singleton,
    List.flatMap_singleton, List.append_assoc]

/-- Further slots of a list that had some, and the trees found in their place, with the same text and rest. -/
structure Continues (slots : List Tree) (found found' : List Tree × Slice) : Prop where
  chars : found.1.flatMap Tree.chars = slots.flatMap Tree.chars ++ found'.1.flatMap Tree.chars
  rest : found'.2 = found.2
  odd : ∃ left, found.1.length = 2 * left + 1

/-- Trees of the same text together, and the same rest. -/
def SameWhole (found found' : List Tree × Slice) : Prop :=
  found'.1.flatMap Tree.chars = found.1.flatMap Tree.chars ∧ found'.2 = found.2

/-- One tree with the text of several ones together, and the same rest. -/
def Gathers (found : List Tree × Slice) (found' : Tree × Slice) : Prop :=
  found'.1.chars = found.1.flatMap Tree.chars ∧ found'.2 = found.2

section Unfolding

variable {early late : Prop} {b : Texts} {element separator : Judge} {style : ListStyle}

/-- A separator and an element. -/
def markAndElement (element separator : Judge) (b : Texts) (s : Slice) : Verdict (List Tree × Slice) :=
  (separator b s).andThen
    (fun mark => (element b mark.2).andThen (fun tree => .matched ([mark.1, tree.1], tree.2)) .failed) .failed

/-- A separator at the end of a list, if there may be one and there is one. -/
def lastMark (separator : Judge) (trailing : Bool) (b : Texts) (s : Slice) : Verdict (List Tree × Slice) :=
  if trailing then (separator b s).andThen (fun mark => .matched ([mark.1], mark.2)) (.matched ([], s))
  else .matched ([], s)

/-- The end of a list after a repetition whose trees stand for the slots before. -/
theorem continues_of_ending {ending : Verdict (List Tree × Slice)} {last : List Tree} {rest : Slice}
    (h : (Verdict.matched (last, rest)).Agrees early late SameWhole ending) {before slots trees : List Tree}
    (odd : ∃ left, slots.length = 2 * left + 1)
    (texts : slots.flatMap Tree.chars
      = before.flatMap Tree.chars ++ (trees.flatMap Tree.chars ++ last.flatMap Tree.chars)) (tag : String) :
    (Verdict.matched (slots, rest)).Agrees early late (Continues before)
      (ending.andThen (fun last => .matched (.node tag none trees :: last.1, last.2)) .failed) := by
  cases h with
  | matched same =>
    refine .matched ⟨?_, same.2, odd⟩
    rw [List.flatMap_cons, Tree.chars_node, same.1]
    exact texts
  | late allowed => exact .late allowed

/-- What a list finds when it looks for a further pair, and what is found in its place: one tree, or nothing but the
end of the list. -/
inductive PairStands (early late : Prop) (s : Slice) (ending : Verdict (List Tree × Slice)) :
    Verdict (Option Recognizer.Pair) → Verdict (Tree × Slice) → Prop
  | none : (Verdict.matched ([], s)).Agrees early late SameWhole ending →
      PairStands early late s ending (.matched none) .failed
  | elided {mark rest} : (Verdict.matched ([mark], rest)).Agrees early late SameWhole ending →
      PairStands early late s ending (.matched (some ⟨mark, .none, rest⟩)) .failed
  /-- Where nothing has been taken, the end of the list has no text. -/
  | both {mark tree whole rest} : whole.chars = mark.chars ++ tree.chars → rest.Follows s →
      (rest = s → ∃ last, last.flatMap Tree.chars = [] ∧
        (Verdict.matched (last, s)).Agrees early late SameWhole ending) →
      PairStands early late s ending (.matched (some ⟨mark, some tree, rest⟩)) (.matched (whole, rest))
  | exhausted : PairStands early late s ending .exhausted .exhausted
  | early {v} : early → PairStands early late s ending .exhausted v
  | late {v} : late → PairStands early late s ending v .exhausted

theorem pair_stands (honest : element.Honest) (honest' : separator.Honest) (real : b.Real) {trailing : Bool} {s : Slice}
    {ending : Verdict (List Tree × Slice)} {paired : Verdict (Tree × Slice)}
    (pairs : (markAndElement element separator b s).Agrees early late Gathers paired)
    (ends : (lastMark separator trailing b s).Agrees early late SameWhole ending) :
    PairStands early late s ending (pair ⟨element, separator, style, false⟩ b trailing s) paired := by
  rw [markAndElement] at pairs
  rw [lastMark] at ends
  rw [pair]
  dsimp only
  cases first : separator b s with
  | exhausted =>
    rw [first] at pairs
    cases pairs with
    | exhausted => exact .exhausted
    | early allowed => exact .early allowed
    | late allowed => exact .late allowed
  | fatal =>
    rw [first] at pairs
    cases pairs with
    | late allowed => exact .late allowed
  | failed =>
    rw [first] at pairs ends
    have ends : (Verdict.matched ([], s)).Agrees early late SameWhole ending := by
      split at ends <;> exact ends
    cases pairs with
    | failed => exact .none ends
    | late allowed => exact .late allowed
  | matched mark =>
    obtain ⟨follows, empty⟩ := honest' real first
    rw [first] at pairs ends
    simp only [Verdict.andThen] at pairs ends ⊢
    cases second : element b mark.2 with
    | exhausted =>
      rw [second] at pairs
      cases pairs with
      | exhausted => exact .exhausted
      | early allowed => exact .early allowed
      | late allowed => exact .late allowed
    | fatal =>
      rw [second] at pairs
      cases pairs with
      | late allowed => exact .late allowed
    | failed =>
      rw [second] at pairs
      cases pairs with
      | late allowed => exact .late allowed
      | failed =>
        split at ends
        · next elides =>
          rw [if_pos elides]
          exact .elided ends
        · next kept =>
          rw [if_neg kept]
          exact .none ends
    | matched tree =>
      obtain ⟨follows', -⟩ := honest real second
      rw [second] at pairs
      cases pairs with
      | late allowed => exact .late allowed
      | @matched _ whole same =>
        obtain ⟨chars, rest⟩ := same
        have text : whole.1.chars = mark.1.chars ++ tree.1.chars := by
          simpa using chars
        obtain ⟨whole, _⟩ := whole
        cases rest
        refine .both text (follows'.trans follows) fun here => ?_
        split at ends
        · obtain ⟨untaken, -⟩ := follows.eq_both follows' here
          refine ⟨[mark.1], ?_, untaken ▸ ends⟩
          rw [List.flatMap_singleton, empty untaken]
        · exact ⟨[], rfl, ends⟩

/-- The further slots of a list are those that a repetition of pairs finds, with what is found after it. -/
theorem listTail_repeats (honest : element.Honest) (honest' : separator.Honest) (real : b.Real) {pairRun : Judge}
    (pairs : ∀ s, (markAndElement element separator b s).Agrees early late Gathers (pairRun b s))
    {ending : Slice → Verdict (List Tree × Slice)}
    (endings : ∀ s, (lastMark separator style.trailing b s).Agrees early late SameWhole (ending s))
    {fuel fuel' : Nat} {s : Slice} (enough : s.chars.length < fuel) (enough' : s.chars.length < fuel')
    {slots trees : Array Tree} (odd : ∃ left, slots.toList.length = 2 * left + 1) {before : List Tree}
    (texts : slots.toList.flatMap Tree.chars = before.flatMap Tree.chars ++ trees.toList.flatMap Tree.chars)
    (tag : String) : (listTail ⟨element, separator, style, false⟩ b fuel slots s).Agrees early late (Continues before)
      ((repeatFrom pairRun b 0 0 fuel' trees s).andThen
        (fun found => (ending found.2).andThen
          (fun last => .matched (.node tag none found.1 :: last.1, last.2)) .failed) .failed) := by
  induction fuel generalizing s fuel' slots trees with
  | zero => exact absurd enough (Nat.not_lt_zero _)
  | succ fuel ih =>
    obtain ⟨fuel', rfl⟩ := Nat.exists_eq_succ_of_ne_zero (Nat.ne_zero_of_lt enough')
    have unbounded : ¬((0 : Nat) ≠ 0 ∧ 0 ≤ trees.size) := fun h => h.1 rfl
    have stands : PairStands early late s _ (pair ⟨element, separator, style, false⟩ b style.trailing s) _ :=
      pair_stands honest honest' real (pairs s) (endings s)
    rw [listTail, repeatFrom, if_neg unbounded]
    generalize pair _ b _ s = found at stands ⊢
    generalize pairRun b s = found' at stands ⊢
    cases stands with
    | none ends =>
      refine continues_of_ending ends odd ?_ tag
      rw [texts, List.flatMap_nil, List.append_nil]
    | @elided mark rest ends =>
      refine continues_of_ending ends (odd_push odd mark .elided) ?_ tag
      rw [chars_push, texts]
      simp only [Tree.chars_elided, List.append_nil, List.append_assoc, List.flatMap_singleton]
    | @both mark tree whole rest chars follows ends =>
      have texts' : ((slots.push mark).push tree).toList.flatMap Tree.chars
          = before.flatMap Tree.chars ++ (trees.push whole).toList.flatMap Tree.chars := by
        rw [chars_push, texts, Array.toList_push, List.flatMap_append, List.flatMap_singleton, chars, List.append_assoc]
      simp only [Verdict.andThen, Option.getD_some, Option.isNone_some, Bool.false_or, beq_iff_eq]
      by_cases untaken : rest.start = s.start
      · -- both loops stop here, although the list does not look for another separator
        obtain rfl := follows.eq_of_start_eq untaken
        obtain ⟨last, empty, ends⟩ := ends rfl
        rw [if_pos rfl, if_pos rfl, padRepetitions_zero]
        refine continues_of_ending ends (odd_push odd mark tree) ?_ tag
        rw [texts', empty, List.append_nil]
      · have shorter := follows.length_lt untaken
        rw [if_neg untaken, if_neg untaken]
        exact ih (by omega) (by omega) (odd_push odd mark tree) texts'
    | exhausted => exact .exhausted
    | early allowed => exact .early allowed
    | late allowed => exact .late allowed

/-- A term that may be missing. -/
theorem repetition_optional (label : Option String) (run : Judge) (b : Texts) (s : Slice) :
    repetition label run 0 1 b s = (run b s).andThen
      (fun found => .matched (.node (label.getD Tree.quantTag) none [found.1], found.2))
      (.matched (.node (label.getD Tree.quantTag) none [], s)) := by
  have first : ¬((1 : Nat) ≠ 0 ∧ 1 ≤ (#[] : Array Tree).size) := fun h => absurd h.2 (Nat.not_succ_le_zero 0)
  rw [repetition, repeatFrom, if_neg first]
  cases run b s with
  | matched found =>
    have once : (if found.2.start = s.start then
          Verdict.matched ((Recognizer.padRepetitions 0 #[] found.1).toList, found.2)
        else repeatFrom run b 0 1 (s.chars.length + 1) (#[].push found.1) found.2)
          = .matched ([found.1], found.2) := by
      split
      · rw [padRepetitions_zero]
        rfl
      · rw [repeatFrom, if_pos ⟨Nat.one_ne_zero, Nat.le_refl 1⟩]
        rfl
    simp only [Verdict.andThen]
    rw [once]
    rfl
  | failed => rfl
  | fatal => rfl
  | exhausted => rfl

theorem lastMark_agrees {mark : Judge} {trailing : Bool} (marks : trailing = true → Agree early late b separator mark)
    (label : Option String) (s : Slice) : (lastMark separator trailing b s).Agrees early late SameWhole
      (sequenceFrom (if trailing then [plain (repetition label mark 0 1)] else []) false b s) := by
  cases trailing with
  | false => exact .matched ⟨rfl, rfl⟩
  | true =>
    rw [if_pos rfl, sequenceFrom_last, repetition_optional, Verdict.andThen_andThen, lastMark, if_pos rfl]
    refine (marks rfl s).andThen (fun found found' same => .matched ⟨?_, same.2⟩) (.matched ⟨?_, rfl⟩)
    · simp only [List.flatMap_singleton, Tree.chars_node, same.1]
    · simp only [List.flatMap_singleton, Tree.chars_node]

theorem markAndElement_agrees {mark tree : Judge} (marks : Agree early late b separator mark)
    (trees : Agree early late b element tree) (label : Option String) (s : Slice) :
    (markAndElement element separator b s).Agrees early late Gathers (sequence label [plain mark, plain tree] b s) := by
  have both : (markAndElement element separator b s).Agrees early late SameWhole
      (sequenceFrom [plain mark, plain tree] false b s) := by
    rw [markAndElement, sequenceFrom_plain]
    refine (marks s).andThen (fun first first' same => ?_) .failed
    rw [sequenceFrom_last, Verdict.andThen_andThen, same.2]
    refine (trees first.2).andThen (fun second second' same' => .matched ⟨?_, same'.2⟩) .failed
    simp only [List.flatMap_cons, same.1, same'.1]
  exact both.andThen_right (fun _ _ same => .matched ⟨(Tree.chars_node ..).trans same.1, same.2⟩) fun _ => .failed

/-- Steps that stand for the further slots of a list. -/
def Unfolds (early late : Prop) (b : Texts) (parts : ListParts) (rest : List Step) : Prop :=
  ∀ ⦃s : Slice⦄ ⦃slots : Array Tree⦄ ⦃fuel : Nat⦄, s.chars.length < fuel →
    (∃ left, slots.toList.length = 2 * left + 1) →
    (listTail parts b fuel slots s).Agrees early late (Continues slots.toList) (sequenceFrom rest false b s)

theorem unfolds_rest (honest : element.Honest) (honest' : separator.Honest) (real : b.Real) {pairRun : Judge}
    (pairs : ∀ s, (markAndElement element separator b s).Agrees early late Gathers (pairRun b s)) (mark : Judge)
    (marks : style.trailing = true → Agree early late b separator mark) (label label' : Option String) :
    Unfolds early late b ⟨element, separator, style, false⟩
      (plain (repetition label pairRun 0 0) ::
        if style.trailing then [plain (repetition label' mark 0 1)] else []) := by
  intro s slots fuel enough odd
  have texts : slots.toList.flatMap Tree.chars
      = slots.toList.flatMap Tree.chars ++ (#[] : Array Tree).toList.flatMap Tree.chars :=
    (List.append_nil _).symm
  have enough' : s.chars.length < s.chars.length + 2 := by omega
  rw [sequenceFrom_plain, repetition, Verdict.andThen_andThen]
  simp only [Nat.zero_le, if_true]
  exact listTail_repeats honest honest' real pairs (lastMark_agrees marks label') enough enough' odd texts _

/-- Steps that may run out of depth stand for the slots just as well. -/
theorem Unfolds.upTo {parts : ListParts} (runs : List Judge) {runs' : List Judge}
    (h : Unfolds early late b parts (runs.map plain))
    (near : List.Forall₂ (fun run run' => ∀ s, (run b s).UpTo late (run' b s)) runs runs') :
    Unfolds early late b parts (runs'.map plain) := by
  have all : ∀ s, (sequenceFrom (runs.map plain) false b s).UpTo late (sequenceFrom (runs'.map plain) false b s) := by
    clear h
    induction near with
    | nil => exact fun _ => .refl _
    | cons first _ ih => exact fun s => (first s).andThen fun found => (ih found.2).andThen fun _ => .refl _
  intro s slots fuel enough odd
  exact (h enough odd).upTo (all s)

/-- A list never fails once it has its first slots. -/
theorem listTail_ne_failed (fuel : Nat) (slots : Array Tree) (s : Slice) :
    listTail ⟨element, separator, style, false⟩ b fuel slots s ≠ .failed := by
  induction fuel generalizing slots s with
  | zero => exact nofun
  | succ fuel ih =>
    have found : pair ⟨element, separator, style, false⟩ b style.trailing s ≠ .failed := by
      refine Verdict.andThen_ne_failed (fun mark => ?_) fun _ => nofun
      refine Verdict.andThen_ne_failed (fun tree => nofun) fun _ => ?_
      dsimp only
      split <;> exact nofun
    refine Verdict.andThen_ne_failed (fun found => ?_) fun failed => absurd failed found
    split
    · exact nofun
    · dsimp only
      split
      · exact nofun
      · exact ih _ _

/-- What a list makes of its first slots. -/
def listFrom (label : Option String) (parts : ListParts) (b : Texts) (fuel : Nat) (head : List Tree × Slice) :
    Verdict (Tree × Slice) :=
  (listTail parts b fuel head.1.toArray head.2).andThen
    (fun found => .matched (.ofSlots (label.getD Tree.listTag) parts.style.assoc found.1, found.2)) .failed

theorem listFrom_agrees {parts : ListParts} {rest : List Step} (unfolds : Unfolds early late b parts rest)
    (label : Option String) {fuel : Nat} {head heads : List Tree} {s : Slice} (enough : s.chars.length < fuel)
    (odd : ∃ left, head.length = 2 * left + 1) (texts : head.flatMap Tree.chars = heads.flatMap Tree.chars)
    (tag : String) : (listFrom label parts b fuel (head, s)).Agrees early late SameText
      ((sequenceFrom rest false b s).andThen (fun others => .matched (.node tag none (heads ++ others.1), others.2))
        .failed) := by
  refine (unfolds enough odd).andThen (fun found found' same => .matched ⟨?_, same.rest⟩) .failed
  obtain ⟨left, odd⟩ := same.odd
  rw [Tree.chars_node, Tree.chars_ofSlots _ _ odd, same.chars, List.flatMap_append, ← texts]

/-- A list that begins with an element. -/
theorem sequence_unfolds (honest : element.Honest) (real : b.Real) {first : Judge}
    (firsts : Agree early late b element first) {rest : List Step}
    (unfolds : Unfolds early late b ⟨element, separator, style, false⟩ rest) (label label' : Option String)
    {fuel : Nat} {s : Slice} (enough : s.chars.length < fuel) :
    ((element b s).andThen
        (fun found => listFrom label ⟨element, separator, style, false⟩ b fuel ([found.1], found.2)) .failed).Agrees
      early late SameText (sequence label' (plain first :: rest) b s) := by
  simp only [sequence, sequenceFrom_plain, Verdict.andThen_andThen]
  refine ((firsts s).knowing fun _ found => (honest real found).1).andThen (fun found found' same => ?_) .failed
  obtain ⟨⟨chars, rest⟩, follows⟩ := same
  rw [rest]
  have texts : [found.1].flatMap Tree.chars = [found'.1].flatMap Tree.chars := by
    rw [List.flatMap_singleton, List.flatMap_singleton, chars]
  exact listFrom_agrees unfolds label (Nat.lt_of_le_of_lt follows.length_le enough) ⟨0, rfl⟩ texts _

/-- A list that begins with a separator. -/
theorem sequence_unfolds_leading (honest : element.Honest) (honest' : separator.Honest) (real : b.Real)
    {mark first : Judge} (marks : Agree early late b separator mark) (firsts : Agree early late b element first)
    {rest : List Step} (unfolds : Unfolds early late b ⟨element, separator, style, false⟩ rest)
    (label label' : Option String) {fuel : Nat} {s : Slice} (enough : s.chars.length < fuel) :
    (((pair ⟨element, separator, style, false⟩ b false s).andThen leadingSlots .failed).andThen
      (listFrom label ⟨element, separator, style, false⟩ b fuel) .failed).Agrees early late SameText
        (sequence label' (plain mark :: plain first :: rest) b s) := by
  simp only [sequence, sequenceFrom_plain, pair, Verdict.andThen_andThen]
  refine ((marks s).knowing fun _ found => (honest' real found).1).andThen (fun mark mark' same => ?_) .failed
  obtain ⟨⟨chars, rest⟩, follows⟩ := same
  rw [rest]
  refine ((firsts mark.2).knowing fun _ found => (honest real found).1).andThen (fun tree tree' same => ?_) .failed
  obtain ⟨⟨chars', rest'⟩, follows'⟩ := same
  rw [rest']
  have texts : [Tree.elided, mark.1, tree.1].flatMap Tree.chars = [mark'.1, tree'.1].flatMap Tree.chars := by
    simp only [List.flatMap_cons, Tree.chars_elided, List.nil_append, chars, chars']
  exact listFrom_agrees unfolds label (Nat.lt_of_le_of_lt (follows'.trans follows).length_le enough) ⟨1, rfl⟩ texts _

/-- A list does what the choice that it stands for does. -/
theorem list_unfolds (label label' : Option String) {starting : Judge} (leading : Judge)
    (starts : ∀ s, ((element b s).andThen (fun found =>
          listFrom label ⟨element, separator, style, false⟩ b (s.chars.length + 2) ([found.1], found.2)) .failed).Agrees
        early late SameText (starting b s))
    (leads : style.leading = true → ∀ s,
      (((pair ⟨element, separator, style, false⟩ b false s).andThen leadingSlots .failed).andThen
          (listFrom label ⟨element, separator, style, false⟩ b (s.chars.length + 2)) .failed).Agrees early late SameText
        (leading b s)) :
    Agree early late b (list label ⟨element, separator, style, false⟩)
      (choice label' (starting :: if style.leading then [leading] else [])) := by
  intro s
  have starts := starts s
  have whole : list label ⟨element, separator, style, false⟩ b s
      = (listHead ⟨element, separator, style, false⟩ b s).andThen
          (listFrom label ⟨element, separator, style, false⟩ b (s.chars.length + 2)) .failed := rfl
  have node : ∀ (index : Nat) (found found' : Tree × Slice), SameText found found' →
      (Verdict.matched found).Agrees early late SameText
        (.matched (.node (label'.getD Tree.choiceTag) (some (.choice index)) [found'.1], found'.2)) := by
    intro index found found' same
    refine .matched ⟨?_, same.2⟩
    rw [Tree.chars_node, List.flatMap_singleton, same.1]
  rw [whole, choice, choiceFrom, listHead, Verdict.andThen_andThen]
  dsimp only
  cases first : element b s with
  | matched found =>
    rw [first] at starts
    refine starts.andThen_right (node 0) fun failed => absurd failed ?_
    show listFrom _ _ _ _ _ ≠ _
    exact Verdict.andThen_ne_failed (fun _ failed => by cases failed)
      fun failed => absurd failed (listTail_ne_failed _ _ _)
  | failed =>
    rw [first] at starts
    generalize starting b s = v at starts ⊢
    cases starts with
    | late allowed => exact .late allowed
    | failed =>
      show (Verdict.andThen (if style.leading then _ else _) _ _).Agrees _ _ _
        (choiceFrom _ b s (if style.leading then _ else _) _)
      by_cases may : style.leading = true
      · rw [if_pos may, if_pos may]
        exact (leads may s).andThen_right (node 1) fun _ => .failed
      · rw [if_neg may, if_neg may]
        exact .failed
  | fatal =>
    rw [first] at starts
    exact starts.andThen_right (node 0) fun failed => by cases failed
  | exhausted =>
    rw [first] at starts
    exact starts.andThen_right (node 0) fun failed => by cases failed

end Unfolding
end Judge
end GrammarKit
