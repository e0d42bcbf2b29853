/-
Module: GrammarKit.Proofs.MetagrammarTerminals
Purpose: The terminals of the grammar of grammars.  All of them take input, and the operators of lists are the three
  that there are.
Main exports: Metagrammar.padding, Metagrammar.consumes_literal, Metagrammar.consumes_number,
  Metagrammar.consumes_identifier, Metagrammar.consumes_regex, Metagrammar.consumes_plain,
  Metagrammar.operator_of_match
-/
import GrammarKit.Metagrammar
import GrammarKit.Proofs.TokenGrammars

namespace GrammarKit

namespace Regex

/-- What follows the group of a terminal between blanks. -/
def closing : List Char := [')', '\\', 's', '*']

/-- The pattern of a terminal between blanks, where the terminal is read as `inner`. -/
def padded (inner : Pattern) : Pattern :=
  let blanks := (Pattern.ofSet (shorthand inside 's')).repeated 0 none true
  .choice [.sequence [.assertion .textStart, blanks, .choice [.sequence [.group 1 inner]], blanks]]

theorem takes_padded {inner : Pattern} (takes : inner.takes = true) : (padded inner).takes = true := by
  apply Pattern.takes_choice
  rintro p member
  obtain rfl := List.mem_singleton.mp member
  have group : (Pattern.choice [.sequence [.group 1 inner]]).takes = true := by
    apply Pattern.takes_choice
    rintro p member
    obtain rfl := List.mem_singleton.mp member
    rw [Pattern.takes_sequence, List.any_cons, Pattern.takes, takes]
    rfl
  rw [Pattern.takes_sequence]
  simp only [List.any_cons, group, Bool.true_or, Bool.or_true]

/-- A terminal between blanks is read as its own characters are. -/
theorem read_padded {inner : List Char} {part : Part} {groups : Nat} {names : List (List Char)}
    (noFlags : ∀ more, inner ++ ')' :: closing ≠ '?' :: more)
    (read : readAlternatives (inner.length + 13) [] [] ⟨inner ++ ')' :: closing, inside, 1, []⟩
      = .ok (part, ⟨')' :: closing, inside, groups, names⟩)) {p : Pattern}
    (whole : Pattern.read ("(?m)\\A\\s*(?:(".toList ++ inner ++ ')' :: closing) = .ok p) :
    p = padded part.pattern := by
  have blank : ∀ c more, c ≠ '?' → ∀ rest, c :: more ≠ '?' :: rest :=
    fun c more ne rest same => ne (List.cons.inj same).1
  have last : ∀ rest, ([] : List Char) ≠ '?' :: rest := fun _ => nofun
  have text : "(?m)\\A\\s*(?:(".toList ++ inner ++ ')' :: closing = '(' :: '?' :: 'm' :: ')' :: '\\' :: 'A' ::
      '\\' :: 's' :: '*' :: '(' :: '?' :: ':' :: '(' :: (inner ++ ')' :: closing) := rfl
  have length : (inner ++ ')' :: closing).length = inner.length + 5 := by
    rw [List.length_append]
    rfl
  rw [Pattern.read, text] at whole
  obtain ⟨⟨all, after⟩, found, whole⟩ := Except.bind_eq_ok whole
  simp only [List.length_cons, length] at found
  have opening : readOpening ⟨'(' :: '?' :: ':' :: '(' :: (inner ++ ')' :: closing), inside, 0, []⟩
      ('?' :: ':' :: '(' :: (inner ++ ')' :: closing))
        = .ok (.group none ⟨'(' :: (inner ++ ')' :: closing), inside, 0, []⟩) := rfl
  have group : readAlternatives (inner.length + 14) [] [] ⟨'(' :: (inner ++ ')' :: closing), inside, 0, []⟩
      = .ok (choiceOf [] (sequenceOf [some ⟨.group 1 part.pattern, part.depth + 1⟩]),
          ⟨closing, inside, groups, names⟩) := by
    rw [read_bracket (readOpening_inside noFlags _) read]
    rfl
  have found : readAlternatives (inner.length + 17 + 2) [] [] _ = _ := found
  rw [read_start, read_shorthand (.inr (.inl rfl)), read_star (blank _ _ (by decide)), read_bracket opening group,
    read_shorthand (.inr (.inl rfl)), read_star last, read_end] at found
  obtain ⟨rfl, rfl⟩ := Prod.mk.inj (Except.ok.inj found)
  simp only [List.isEmpty_nil, Bool.not_true, Bool.false_eq_true, if_false] at whole
  split at whole
  · cases whole
  · rw [← Except.ok.inj whole, padded]
    simp [choiceOf, sequenceOf, inGroup]

theorem takes_literal (flags : Flags) (c : Char) : (flags.literal c).takes = true := by
  unfold Flags.literal
  split
  · exact Pattern.takes_ofSet _
  · rfl

/-- A choice between sequences needs a character if some item of each of them does. -/
theorem takes_choiceOf {done : List Part} {items : Items} (each : ∀ part ∈ done, part.pattern.takes = true)
    (some : ∃ part, some part ∈ items ∧ part.pattern.takes = true) :
    (choiceOf done (sequenceOf items)).pattern.takes = true := by
  apply Pattern.takes_choice
  intro p member
  obtain ⟨part, listed, rfl⟩ := List.mem_map.mp member
  rw [List.mem_reverse] at listed
  rcases List.mem_cons.mp listed with rfl | before
  · obtain ⟨part, inside, takes⟩ := some
    rw [sequenceOf, Pattern.takes_sequence, List.any_eq_true]
    exact ⟨part.pattern, List.mem_filterMap.mpr ⟨_, List.mem_reverse.mpr inside, rfl⟩, takes⟩
  · exact each part before

end Regex

namespace Metagrammar

open Regex

/-- The padding of the grammar of grammars: blanks. -/
def padding : Padding := ⟨"\\s*()\\s*", []⟩

/-- A terminal whose own characters are read as a pattern that needs one takes input. -/
theorem consumes_of_read {t : Term} {inner start : List Char} {fuel : Nat} {part : Part} {groups : Nat}
    {names : List (List Char)}
    (text : (terminalPattern t (some padding)).toList = "(?m)\\A\\s*(?:(".toList ++ inner ++ ')' :: closing)
    (length : inner.length + 13 = fuel) (begins : inner ++ ')' :: closing = start)
    (noFlags : ∀ more, start ≠ '?' :: more)
    (read : readAlternatives fuel [] [] ⟨start, inside, 1, []⟩ = .ok (part, ⟨')' :: closing, inside, groups, names⟩))
    (takes : part.pattern.takes = true) : t.consumes (some padding) = true := by
  subst length begins
  rw [Term.consumes, Bool.or_eq_true, text]
  cases whole : Pattern.read ("(?m)\\A\\s*(?:(".toList ++ inner ++ ')' :: closing) with
  | error e => exact .inr rfl
  | ok p =>
    obtain rfl := read_padded noFlags read whole
    exact .inr (takes_padded takes)

/-- What stands around a terminal between blanks. -/
theorem toList_padded (t : Term) : (terminalPattern t (some padding)).toList
    = "(?m)\\A\\s*(?:".toList ++ (groupedPattern t).toList ++ [')', '\\', 's', '*'] := by
  have wrapped : padding.wrap t (groupedPattern t)
      = String.ofList ("\\s*".toList ++ ("(?:" ++ groupedPattern t ++ ")").toList ++ "\\s*".toList) := rfl
  rw [terminalPattern]
  simp [wrapped]

theorem toList_regex (pattern : String) : (terminalPattern (.regex pattern) (some padding)).toList
    = "(?m)\\A\\s*(?:(".toList ++ pattern.toList ++ ')' :: closing := by
  rw [toList_padded]
  simp [groupedPattern, closing]

theorem toList_literal (text : String) : (terminalPattern (.literal text) (some padding)).toList
    = "(?m)\\A\\s*(?:(".toList ++ escaped text.toList ++ ')' :: closing := by
  rw [toList_padded]
  simp [groupedPattern, escape, escaped, closing]

/-- Literals with any characters take input. -/
theorem consumes_literal {text : String} (full : text ≠ "") : Term.consumes (some padding) (.literal text) = true := by
  have enough : (escaped text.toList).length < (escaped text.toList).length + 13 := by omega
  apply consumes_of_read (toList_literal text) rfl rfl (head_escaped text.toList _)
    (read_escaped text.toList enough [] _ 1 [])
  apply takes_choiceOf (List.forall_mem_nil _)
  obtain ⟨c, member⟩ := List.exists_mem_of_ne_nil _ (mt String.toList_eq_nil_iff.mp full)
  refine ⟨⟨inside.literal c, 0⟩, ?_, takes_literal inside c⟩
  rw [List.append_nil, itemsOf, List.mem_reverse]
  exact List.mem_map_of_mem member

theorem greedy_closing : ∀ more, ')' :: closing ≠ '?' :: more :=
  fun _ => nofun

/-- Numbers take input. -/
theorem consumes_number : Term.consumes (some padding) (.regex "\\d+") = true := by
  have text : (terminalPattern (.regex "\\d+") (some padding)).toList
      = "(?m)\\A\\s*(?:(".toList ++ ['\\', 'd', '+'] ++ ')' :: closing := by simp [toList_regex]
  have read : readAlternatives 16 [] [] ⟨'\\' :: 'd' :: '+' :: ')' :: closing, inside, 1, []⟩
      = .ok (choiceOf [] (sequenceOf [some ⟨(Pattern.ofSet (shorthand inside 'd')).repeated 1 none true, 1⟩]),
          ⟨')' :: closing, inside, 1, []⟩) := by
    rw [read_shorthand (.inl rfl), read_plus greedy_closing, read_close]
  apply consumes_of_read text rfl rfl (fun _ => nofun) read
  apply takes_choiceOf (List.forall_mem_nil _)
  refine ⟨_, List.mem_cons_self, ?_⟩
  rw [Pattern.takes_repeated (Pattern.isEmptyWidth_ofSet _) Nat.one_ne_zero, Pattern.takes_ofSet]

/-- Names take input. -/
theorem consumes_identifier : Term.consumes (some padding) (.regex identifier) = true := by
  have text : (terminalPattern (.regex identifier) (some padding)).toList
      = "(?m)\\A\\s*(?:(".toList ++
          ['@', '|', '[', 'A', '-', 'Z', 'a', '-', 'z', '_', '\\', '.', ']', '\\', 'w', '*'] ++ ')' :: closing := by
    simp [toList_regex, identifier]
  have letters : readClass inside ('A' :: '-' :: 'Z' :: 'a' :: '-' :: 'z' :: '_' :: '\\' :: '.' :: ']' :: '\\' ::
      'w' :: '*' :: ')' :: closing)
      = .ok (⟨⟨[46, 47, 65, 91, 95, 96, 97, 123]⟩, 2⟩, '\\' :: 'w' :: '*' :: ')' :: closing) := by
    decide +kernel
  have read : readAlternatives 29 [] [] ⟨'@' :: '|' :: '[' :: 'A' :: '-' :: 'Z' :: 'a' :: '-' :: 'z' :: '_' :: '\\' ::
        '.' :: ']' :: '\\' :: 'w' :: '*' :: ')' :: closing, inside, 1, []⟩
      = .ok (choiceOf [sequenceOf [some ⟨inside.literal '@', 0⟩]]
          (sequenceOf [some ⟨(Pattern.ofSet (shorthand inside 'w')).repeated 0 none true, 1⟩,
            some ⟨.ofSet ⟨[46, 47, 65, 91, 95, 96, 97, 123]⟩, 2⟩]),
          ⟨')' :: closing, inside, 1, []⟩) := by
    rw [read_plain rfl rfl, read_bar, read_class letters, read_shorthand (.inr (.inr rfl)), read_star greedy_closing,
      read_close]
  apply consumes_of_read text rfl rfl (fun _ => nofun) read
  apply takes_choiceOf
  · intro part member
    obtain rfl := List.mem_singleton.mp member
    rw [sequenceOf, Pattern.takes_sequence]
    exact congrArg (· || false) (takes_literal inside '@')
  · exact ⟨_, .tail _ (.head _), by rw [Pattern.takes_ofSet]⟩

/-- What regular expressions in braces hold, as a pattern. -/
def regexBody : List Char :=
  ['(', '?', ':', '\\', '\\', '.', '|', '\\', '\x7b', '(', '?', ':', '(', '?', ':', '\\', 'd', '+', '(',
    '?', ':', ',', '\\', 'd', '*', ')', '?', '|', ',', '\\', 'd', '+', ')', '\\', '\x7d', ')', '?', '|', '\\',
    '[', '(', '?', ':', '\\', '\\', ']', '|', '[', '^', '\\', ']', ']', ')', '+', ']', '|', '[', '^', '\\',
    '\\', '\x7b', '\\', '\x7d', ']', ')', '*']

/-- Regular expressions in braces take input. -/
theorem consumes_regex : Term.consumes (some padding) (.regex regex) = true := by
  have text : (terminalPattern (.regex regex) (some padding)).toList = "(?m)\\A\\s*(?:(".toList ++
      ('/' :: '\\' :: '\x7b' :: '(' :: (regexBody ++ [')', '\\', '\x7d'])) ++ ')' :: closing := by
    simp [toList_regex, regex, regexBody]
  let after : List Char := ')' :: '\\' :: '\x7d' :: ')' :: closing
  have noFlags : ∀ more, regexBody ++ after ≠ '?' :: more := fun more same => nomatch (List.cons.inj same).1
  -- only where the group ends matters, not what it is
  have ends : (readAlternatives 83 [] [] ⟨regexBody ++ after, inside, 2, []⟩).map Prod.snd
      = .ok ⟨after, inside, 2, []⟩ := by decide +kernel
  obtain ⟨⟨inner, cursor⟩, group, same⟩ := Except.map_eq_ok ends
  obtain rfl : cursor = ⟨after, inside, 2, []⟩ := same
  have read : readAlternatives 86 [] [] ⟨'/' :: '\\' :: '\x7b' :: '(' :: (regexBody ++ after), inside, 1, []⟩
      = .ok (choiceOf [] (sequenceOf [some ⟨inside.literal '\x7d', 0⟩, some ⟨.group 2 inner.pattern, inner.depth + 1⟩,
          some ⟨inside.literal '\x7b', 0⟩, some ⟨inside.literal '/', 0⟩]), ⟨')' :: closing, inside, 2, []⟩) := by
    rw [read_plain rfl rfl, read_meta rfl rfl, read_bracket (readOpening_inside noFlags _) group,
      read_meta rfl rfl, read_close]
    rfl
  apply consumes_of_read text rfl rfl (fun _ => nofun) read
  apply takes_choiceOf (List.forall_mem_nil _)
  exact ⟨_, List.mem_cons_self, takes_literal inside '\x7d'⟩

/-- The other regular expressions take input. -/
theorem consumes_plain : ∀ pattern ∈ [comment, string, "[?*+]", "<:|:>?"],
    Term.consumes (some padding) (.regex pattern) = true := by
  -- each is read on its own, which takes less room than all of them together
  simp only [List.forall_mem_cons, List.not_mem_nil, false_imp_iff, implies_true, and_true]
  and_intros <;> decide +kernel

/-! ### Operators -/

/-- The operators of lists as a pattern. -/
def operators : Pattern :=
  .alt (.literal ['<', ':']) (.seq (.literal [':']) (.repetition (.literal ['>']) 0 (some 1) true))

/-- The texts that the pattern of operators spells. -/
theorem operator_of_spells {cs : List Char} (spelled : operators.Spells cs) : cs ∈ [['<', ':'], [':'], [':', '>']] := by
  rcases spelled with rfl | ⟨_, _, rfl, ⟨parts, -, few, each, rfl⟩, rfl⟩
  · exact List.mem_cons_self
  · have few : parts.length ≤ 1 := few 1 rfl
    match parts, few with
    | [], _ => exact .tail _ List.mem_cons_self
    | [part], _ =>
      obtain rfl : part = ['>'] := each part List.mem_cons_self
      exact .tail _ (.tail _ List.mem_cons_self)

/-- What the terminal of list operators puts out is one of them. -/
theorem operator_of_match {made : Terminal} (compiled : terminal (.regex "<:|:>?") (some padding) = .ok made)
    {s : Slice} {m : Match} (matched : made.regex.match? s = some m) :
    m.output.chars ∈ [['<', ':'], [':'], [':', '>']] := by
  let blanks : Pattern := .repetition (.set Unicode.blanks) 0 none true
  have known : (Pattern.read (terminalPattern (.regex "<:|:>?") (some padding)).toList).toOption
      = some (.seq (.assertion .textStart) (.seq blanks (.seq (.group 1 operators) blanks))) := by
    decide +kernel
  obtain ⟨pattern, machine, read, built, rfl⟩ := terminal_eq_ok compiled
  rw [read] at known
  obtain rfl := Option.some.inj known
  exact operator_of_spells (spells_of_padded rfl rfl rfl built matched)

end Metagrammar
end GrammarKit
