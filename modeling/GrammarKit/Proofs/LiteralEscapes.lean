/-
Module: GrammarKit.Proofs.LiteralEscapes
Purpose: What written literals stand for.  In backquotes each pair of backquotes is one; in other quotes a text is the
  sequence of its characters and escapes, and a text that is none is reported.  The codes of escapes are read as numbers
  are, which may have a plus sign in front, so there are escapes whose code is a sign and one digit fewer.
Main exports: Spelling.Escape, Spelling.Denotes, Metagrammar.unescape_of_match, Metagrammar.unescape_signed
-/
import Mathlib.Data.Nat.Digits.Defs
import GrammarKit.Metagrammar.Reader
import GrammarKit.Proofs.MetagrammarTerminals

namespace GrammarKit.Spelling

/-! ### Codes -/

/-- The digits of a base up to sixteen; letters may be small or capital. -/
def IsDigit (base : Nat) (c : Char) (value : Nat) : Prop :=
  value < base ∧ (c = Nat.digitChar value ∨ c = (Nat.digitChar value).toUpper)

/-- So many digits, the most significant first, make a number. -/
def Digits (base count : Nat) (cs : List Char) (n : Nat) : Prop :=
  cs.length = count ∧ ∃ values, List.Forall₂ (IsDigit base) cs values ∧ n = Nat.ofDigits base values.reverse

/-- The same, where a plus sign may stand in place of the first digit. -/
def SignedDigits (base count : Nat) (cs : List Char) (n : Nat) : Prop :=
  Digits base count cs n ∨ ∃ left digits, count = left + 1 ∧ cs = '+' :: digits ∧ Digits base left digits n

theorem SignedDigits.length {base count n : Nat} {cs : List Char} (code : SignedDigits base count cs n) :
    cs.length = count := by
  obtain ⟨length, -⟩ | ⟨left, digits, rfl, rfl, length, -⟩ := code
  · exact length
  · rw [List.length_cons, length]

theorem hexValue?_eq_some {c : Char} {value : Nat} : Regex.hexValue? c = some value ↔ IsDigit 16 c value := by
  constructor
  · intro read
    have few : c.toNat < 103 := by
      have below {first last : Char} (here : (first ≤ c && c ≤ last) = true) : c.toNat ≤ last.toNat :=
        of_decide_eq_true (Bool.and_eq_true_iff.mp here).2
      rw [Regex.hexValue?] at read
      split at read
      · next here => exact Nat.lt_of_le_of_lt (below here) (by decide)
      split at read
      · next here => exact Nat.lt_of_le_of_lt (below here) (by decide)
      split at read
      · next here => exact Nat.lt_of_le_of_lt (below here) (by decide)
      · cases read
    have table : ∀ n < 103, ∀ value ∈ Regex.hexValue? (Char.ofNat n), value < 16 ∧
        (Char.ofNat n = Nat.digitChar value ∨ Char.ofNat n = (Nat.digitChar value).toUpper) := by
      decide
    have known := table c.toNat few
    rw [Char.ofNat_toNat] at known
    exact known value read
  · rintro ⟨below, digit⟩
    have table : ∀ value < 16, Regex.hexValue? (Nat.digitChar value) = some value ∧
        Regex.hexValue? (Nat.digitChar value).toUpper = some value := by
      decide
    rcases digit with rfl | rfl
    · exact (table value below).1
    · exact (table value below).2

section Base

variable {base : Nat} (small : base ≤ 16)
include small

theorem digitValue?_eq_some {c : Char} {value : Nat} : digitValue? base c = some value ↔ IsDigit base c value := by
  rw [digitValue?, Option.filter_eq_some_iff, hexValue?_eq_some, decide_eq_true_eq]
  constructor
  · rintro ⟨⟨-, digit⟩, below⟩
    exact ⟨below, digit⟩
  · rintro ⟨below, digit⟩
    exact ⟨⟨Nat.lt_of_lt_of_le below small, digit⟩, below⟩

/-- Digits are read from the left. -/
theorem foldlM_digitValue? {cs : List Char} {start n : Nat} :
    cs.foldlM (fun value c => (digitValue? base c).map (base * value + ·)) start = some n ↔
      ∃ values, List.Forall₂ (IsDigit base) cs values ∧ n = values.foldl (fun value d => base * value + d) start := by
  induction cs generalizing start with
  | nil =>
    constructor
    · rintro ⟨⟩
      exact ⟨[], .nil, rfl⟩
    · rintro ⟨_, ⟨⟩, rfl⟩
      rfl
  | cons c cs ih =>
    rw [List.foldlM_cons]
    constructor
    · intro read
      obtain ⟨next, first, others⟩ := Option.bind_eq_some_iff.mp read
      obtain ⟨d, digit, rfl⟩ := Option.map_eq_some_iff.mp first
      obtain ⟨values, digits, rfl⟩ := ih.mp others
      exact ⟨d :: values, .cons ((digitValue?_eq_some small).mp digit) digits, rfl⟩
    · rintro ⟨_, _ | ⟨digit, digits⟩, rfl⟩
      refine Option.bind_eq_some_iff.mpr ⟨_, ?_, ih.mpr ⟨_, digits, rfl⟩⟩
      rw [(digitValue?_eq_some small).mpr digit]
      rfl

theorem digitsValue?_eq_some {cs : List Char} {n : Nat} :
    digitsValue? base cs = some n ↔ cs ≠ [] ∧ Digits base cs.length cs n := by
  cases cs with
  | nil => simp [digitsValue?]
  | cons c cs =>
    have horner (values : List Nat) :
        values.foldl (fun value d => base * value + d) 0 = Nat.ofDigits base values.reverse := by
      rw [Nat.ofDigits_eq_foldr, List.foldr_reverse]
      congr 1
      funext value d
      exact Nat.add_comm _ _
    rw [digitsValue?, foldlM_digitValue? small, Digits]
    · simp [horner]
    · nofun

end Base

theorem scalar?_eq_some {n : Nat} {c : Char} : Regex.scalar? n = some c ↔ n = c.toNat := by
  rw [Regex.scalar?, Option.dite_none_right_eq_some]
  constructor
  · rintro ⟨valid, found⟩
    cases found
    rfl
  · rintro rfl
    exact ⟨c.valid, rfl⟩

section Base

variable {base : Nat} (small : base ≤ 16)
include small

theorem not_isDigit_plus {value : Nat} : ¬ IsDigit base '+' value := by
  rintro ⟨below, digit⟩
  have none : ∀ value < 16, ¬ ('+' = Nat.digitChar value ∨ '+' = (Nat.digitChar value).toUpper) := by decide
  exact none value (Nat.lt_of_lt_of_le below small) digit

/-- Digits do not begin with a sign. -/
theorem not_digits_plus {count n : Nat} {cs : List Char} : ¬ Digits base count ('+' :: cs) n := by
  rintro ⟨-, _, _ | ⟨digit, _⟩, -⟩
  exact not_isDigit_plus small digit

/-- Two or more characters are a number if they are digits, of which the first may be a plus sign instead. -/
theorem numberValue?_eq_some {cs : List Char} {n : Nat} (more : 1 < cs.length) :
    numberValue? base cs = some n ↔ SignedDigits base cs.length cs n := by
  rw [numberValue?.eq_def]
  split
  · next digits =>
    rw [digitsValue?_eq_some small]
    constructor
    · rintro ⟨-, here⟩
      exact .inr ⟨_, digits, rfl, rfl, here⟩
    · rintro (unsigned | ⟨left, digits, length, same, here⟩)
      · exact absurd unsigned (not_digits_plus small)
      · cases same
        cases length
        exact ⟨List.ne_nil_of_length_pos (Nat.lt_of_succ_lt_succ more), here⟩
  · next signless =>
    rw [digitsValue?_eq_some small]
    constructor
    · rintro ⟨-, here⟩
      exact .inl here
    · rintro (here | ⟨_, digits, -, rfl, -⟩)
      · exact ⟨List.ne_nil_of_length_pos (Nat.lt_of_succ_lt more), here⟩
      · exact absurd rfl (signless digits)

theorem codeChar_eq_ok {count : Nat} (more : 1 < count) {cs : List Char} {c : Char} :
    codeChar count base cs = .ok c ↔ SignedDigits base count cs c.toNat := by
  rw [codeChar]
  constructor
  · intro read
    split at read
    · next found =>
      split at read
      · next length =>
        cases read
        obtain ⟨n, number, code⟩ := Option.bind_eq_some_iff.mp found
        obtain rfl := scalar?_eq_some.mp code
        subst length
        exact (numberValue?_eq_some small more).mp number
      · cases read
    · cases read
  · intro code
    obtain rfl := code.length
    rw [(numberValue?_eq_some small more).mpr code, Option.bind_some, scalar?_eq_some.mpr rfl]
    exact if_pos rfl

end Base

/-! ### Escapes -/

/-- The escapes of one letter and what they stand for. -/
def letterEscapes : List (Char × Char) :=
  [('a', '\x07'), ('b', '\x08'), ('f', '\x0c'), ('n', '\n'), ('r', '\r'), ('t', '\t'), ('v', '\x0b'), ('\\', '\\'),
    ('\'', '\''), ('"', '"')]

/-- The letters before hexadecimal codes and how long the codes are. -/
def codeEscapes : List (Char × Nat) :=
  [('x', 2), ('u', 4), ('U', 8)]

/-- What stands behind a backslash, and the character that both stand for; `Code` says what a hexadecimal code of some
length is. -/
inductive Escape (Code : Nat → List Char → Nat → Prop) : List Char → Char → Prop
  | letter {e c : Char} (known : (e, c) ∈ letterEscapes) : Escape Code [e] c
  | code {e : Char} {count : Nat} (known : (e, count) ∈ codeEscapes) {cs : List Char} {c : Char}
      (here : Code count cs c.toNat) : Escape Code (e :: cs) c
  | octal {cs : List Char} {c : Char} (here : Digits 8 3 cs c.toNat) : Escape Code cs c

/-- A text with escapes and the text that it stands for, character by character. -/
inductive Denotes (Code : Nat → List Char → Nat → Prop) : List Char → List Char → Prop
  | nil : Denotes Code [] []
  | plain {c : Char} {cs value : List Char} (other : c ≠ '\\') (rest : Denotes Code cs value) :
      Denotes Code (c :: cs) (c :: value)
  | escape {written cs value : List Char} {c : Char} (here : Escape Code written c) (rest : Denotes Code cs value) :
      Denotes Code ('\\' :: (written ++ cs)) (c :: value)

theorem simpleEscape?_eq_some {e c : Char} : simpleEscape? e = some c ↔ (e, c) ∈ letterEscapes := by
  constructor
  · intro found
    rw [simpleEscape?.eq_def] at found
    split at found <;> cases found <;> decide
  · intro known
    have table : ∀ pair ∈ letterEscapes, simpleEscape? pair.1 = some pair.2 := by decide
    exact table _ known

theorem codeLength?_eq_some {e : Char} {count : Nat} : codeLength? e = some count ↔ (e, count) ∈ codeEscapes := by
  constructor
  · intro found
    rw [codeLength?.eq_def] at found
    split at found <;> cases found <;> decide
  · intro known
    have table : ∀ pair ∈ codeEscapes, codeLength? pair.1 = some pair.2 := by decide
    exact table _ known

theorem codeEscapes_long {e : Char} {count : Nat} (known : (e, count) ∈ codeEscapes) : 1 < count := by
  have table : ∀ pair ∈ codeEscapes, 1 < pair.2 := by decide
  exact table _ known

/-- The kinds of escapes are told apart by the first character. -/
theorem letterEscapes_apart {e c : Char} (known : (e, c) ∈ letterEscapes) :
    codeLength? e = none ∧ ('0' ≤ e && e ≤ '7') = false := by
  have table : ∀ pair ∈ letterEscapes, codeLength? pair.1 = none ∧ ('0' ≤ pair.1 && pair.1 ≤ '7') = false := by decide
  exact table _ known

theorem octal_apart {e : Char} {value : Nat} (digit : IsDigit 8 e value) :
    codeLength? e = none ∧ ('0' ≤ e && e ≤ '7') = true := by
  have table : ∀ value < 8, (codeLength? (Nat.digitChar value) = none ∧
      ('0' ≤ Nat.digitChar value && Nat.digitChar value ≤ '7') = true) ∧
      (Nat.digitChar value).toUpper = Nat.digitChar value := by
    decide +kernel
  obtain ⟨below, digit⟩ := digit
  obtain ⟨known, small⟩ := table value below
  rcases digit with rfl | rfl
  · exact known
  · rwa [small]

/-! ### Reading -/

section Step

variable (fuel : Nat) {c e : Char} (cs : List Char)

theorem unescapeBody_plain (other : c ≠ '\\') :
    unescapeBody (fuel + 1) (c :: cs) = (unescapeBody fuel cs).map (c :: ·) :=
  if_pos other

theorem unescapeBody_code {count : Nat} (code : codeLength? e = some count) :
    unescapeBody (fuel + 1) ('\\' :: e :: cs)
      = codeChar count 16 (cs.take count) >>= fun c => (unescapeBody fuel (cs.drop count)).map (c :: ·) := by
  rw [unescapeBody.eq_def]
  simp only [ne_eq, not_true_eq_false, if_false, code]

variable (noCode : codeLength? e = none)
include noCode

theorem unescapeBody_octal (digit : ('0' ≤ e && e ≤ '7') = true) :
    unescapeBody (fuel + 1) ('\\' :: e :: cs)
      = codeChar 3 8 (e :: cs.take 2) >>= fun c => (unescapeBody fuel (cs.drop 2)).map (c :: ·) := by
  rw [unescapeBody.eq_def]
  simp only [ne_eq, not_true_eq_false, if_false, noCode]
  exact if_pos digit

theorem unescapeBody_letter (noDigit : ('0' ≤ e && e ≤ '7') = false) (known : simpleEscape? e = some c) :
    unescapeBody (fuel + 1) ('\\' :: e :: cs) = (unescapeBody fuel cs).map (c :: ·) := by
  rw [unescapeBody.eq_def]
  simp only [ne_eq, not_true_eq_false, if_false, noCode, noDigit, Bool.false_eq_true, known]

theorem unescapeBody_unknown (noDigit : ('0' ≤ e && e ≤ '7') = false) (unknown : simpleEscape? e = none) :
    unescapeBody (fuel + 1) ('\\' :: e :: cs) = .error (.unknownEscape e) := by
  rw [unescapeBody.eq_def]
  simp only [ne_eq, not_true_eq_false, if_false, noCode, noDigit, Bool.false_eq_true, unknown]

end Step

/-- What is read of a text with escapes is what it stands for. -/
theorem denotes_of_unescapeBody {fuel : Nat} {cs value : List Char} (enough : cs.length < fuel)
    (read : unescapeBody fuel cs = .ok value) : Denotes (SignedDigits 16) cs value := by
  induction fuel generalizing cs value with
  | zero => exact absurd enough (Nat.not_lt_zero _)
  | succ fuel ih =>
    -- what is left behind a character or an escape is read in the same way
    have goOn {c : Char} {left value : List Char} (shorter : left.length < fuel)
        (read : (unescapeBody fuel left).map (c :: ·) = .ok value) :
        ∃ others, value = c :: others ∧ Denotes (SignedDigits 16) left others := by
      obtain ⟨others, readLeft, rfl⟩ := Except.map_eq_ok read
      exact ⟨others, rfl, ih shorter readLeft⟩
    match cs with
    | [] =>
      cases read
      exact .nil
    | c :: cs =>
      by_cases other : c = '\\'
      case neg =>
        rw [unescapeBody_plain fuel cs other] at read
        obtain ⟨others, rfl, rest⟩ := goOn (Nat.lt_of_succ_lt_succ enough) read
        exact .plain other rest
      subst other
      match cs with
      | [] => cases read
      | e :: cs =>
        have enough : cs.length < fuel := Nat.lt_of_succ_lt (Nat.lt_of_succ_lt_succ enough)
        have dropped (n : Nat) : (cs.drop n).length < fuel := by
          rw [List.length_drop]
          exact Nat.lt_of_le_of_lt (Nat.sub_le _ _) enough
        cases code : codeLength? e with
        | some count =>
          rw [unescapeBody_code fuel cs code] at read
          obtain ⟨c, readCode, readLeft⟩ := Except.bind_eq_ok read
          obtain ⟨others, rfl, rest⟩ := goOn (dropped count) readLeft
          have known := codeLength?_eq_some.mp code
          have here := (codeChar_eq_ok (Nat.le_refl 16) (codeEscapes_long known)).mp readCode
          have whole := Denotes.escape (.code known here) rest
          rwa [List.cons_append, List.take_append_drop] at whole
        | none =>
          cases digit : ('0' ≤ e && e ≤ '7') with
          | true =>
            rw [unescapeBody_octal fuel cs code digit] at read
            obtain ⟨c, readCode, readLeft⟩ := Except.bind_eq_ok read
            obtain ⟨others, rfl, rest⟩ := goOn (dropped 2) readLeft
            rcases (codeChar_eq_ok (by decide) (by decide)).mp readCode with here | ⟨_, _, _, same, _⟩
            · have whole := Denotes.escape (.octal here) rest
              rwa [List.cons_append, List.take_append_drop] at whole
            · -- a sign is no octal digit
              cases same
              cases digit
          | false =>
            cases letter : simpleEscape? e with
            | some c =>
              rw [unescapeBody_letter fuel cs code digit letter] at read
              obtain ⟨others, rfl, rest⟩ := goOn enough read
              exact .escape (.letter (simpleEscape?_eq_some.mp letter)) rest
            | none =>
              rw [unescapeBody_unknown fuel cs code digit letter] at read
              cases read

/-- What a text with escapes stands for is read. -/
theorem unescapeBody_of_denotes {cs value : List Char} (denotes : Denotes (SignedDigits 16) cs value) {fuel : Nat}
    (enough : cs.length < fuel) : unescapeBody fuel cs = .ok value := by
  induction denotes generalizing fuel with
  | nil => cases fuel <;> rfl
  | plain other _ ih =>
    obtain ⟨fuel, rfl⟩ := Nat.exists_eq_succ_of_ne_zero (Nat.ne_zero_of_lt enough)
    rw [unescapeBody_plain fuel _ other, ih (Nat.lt_of_succ_lt_succ enough)]
    rfl
  | @escape written cs value c here _ ih =>
    obtain ⟨fuel, rfl⟩ := Nat.exists_eq_succ_of_ne_zero (Nat.ne_zero_of_lt enough)
    rw [List.length_cons, List.length_append] at enough
    have rest : unescapeBody fuel cs = .ok value := ih (by omega)
    cases here with
    | letter known =>
      obtain ⟨noCode, noDigit⟩ := letterEscapes_apart known
      rw [List.singleton_append, unescapeBody_letter fuel cs noCode noDigit (simpleEscape?_eq_some.mpr known), rest]
      rfl
    | code known here =>
      rw [List.cons_append, unescapeBody_code fuel _ (codeLength?_eq_some.mpr known), List.take_left' here.length,
        List.drop_left' here.length, (codeChar_eq_ok (Nat.le_refl 16) (codeEscapes_long known)).mpr here, rest]
      rfl
    | octal here =>
      obtain ⟨length, values, _ | ⟨digit, digits⟩, code⟩ := here
      · cases length
      have length' := Nat.succ.inj length
      obtain ⟨noCode, octal⟩ := octal_apart digit
      have here : codeChar 3 8 _ = .ok c :=
        (codeChar_eq_ok (by decide) (by decide)).mpr (.inl ⟨length, _, .cons digit digits, code⟩)
      rw [List.cons_append, unescapeBody_octal fuel _ noCode octal, List.take_left' length', List.drop_left' length',
        here, rest]
      rfl

theorem unescapeBody_eq_ok {cs value : List Char} :
    unescapeBody (cs.length + 1) cs = .ok value ↔ Denotes (SignedDigits 16) cs value :=
  ⟨denotes_of_unescapeBody (Nat.lt_succ_self _), fun denotes => unescapeBody_of_denotes denotes (Nat.lt_succ_self _)⟩

/-! ### Signs -/

theorem Denotes.mono {Code Code' : Nat → List Char → Nat → Prop}
    (weaker : ∀ {count cs n}, Code count cs n → Code' count cs n) {cs value : List Char}
    (denotes : Denotes Code cs value) : Denotes Code' cs value := by
  induction denotes with
  | nil => exact .nil
  | plain other _ ih => exact .plain other ih
  | escape here _ ih =>
    refine .escape ?_ ih
    cases here with
    | letter known => exact .letter known
    | code known here => exact .code known (weaker here)
    | octal here => exact .octal here

/-- Where no sign stands behind the letter of a code, all codes are digits. -/
theorem Denotes.unsigned {cs value : List Char} (denotes : Denotes (SignedDigits 16) cs value)
    (signless : ∀ code ∈ codeEscapes, ¬ ['\\', code.1, '+'] <:+: cs) : Denotes (Digits 16) cs value := by
  induction denotes with
  | nil => exact .nil
  | @plain c cs value other _ ih =>
    refine .plain other (ih fun code known inside => signless code known ?_)
    exact inside.trans (List.suffix_cons c cs).isInfix
  | @escape written cs value c here _ ih =>
    have rest : Denotes (Digits 16) cs value := by
      refine ih fun code known inside => signless code known (inside.trans ?_)
      exact ((List.suffix_append written cs).trans (List.suffix_cons _ _)).isInfix
    refine .escape ?_ rest
    cases here with
    | letter known => exact .letter known
    | octal here => exact .octal here
    | code known here =>
      rcases here with here | ⟨_, digits, -, rfl, -⟩
      · exact .code known here
      · exact absurd (List.prefix_append _ (digits ++ cs)).isInfix (signless _ known)

/-- A sign in place of the first digit of a code makes an escape that stands for nothing if codes are digits. -/
theorem not_denotes_signed {e : Char} {count : Nat} (known : (e, count) ∈ codeEscapes) (cs value : List Char) :
    ¬ Denotes (Digits 16) ('\\' :: e :: '+' :: cs) value := by
  intro denotes
  generalize whole : '\\' :: e :: '+' :: cs = text at denotes
  have code := codeLength?_eq_some.mpr known
  cases denotes with
  | nil => cases whole
  | plain other _ => exact other (List.cons.inj whole).1.symm
  | @escape written left _ _ here _ =>
    have same : e :: '+' :: cs = written ++ left := (List.cons.inj whole).2
    cases here with
    | letter letter =>
      cases same
      rw [(letterEscapes_apart letter).1] at code
      cases code
    | @code e' count' known' digits _ here =>
      match digits, here with
      | [], here =>
        obtain rfl := here.1
        exact absurd (codeEscapes_long known') (by decide)
      | d :: digits, here =>
        obtain rfl : '+' = d := (List.cons.inj (List.cons.inj same).2).1
        exact not_digits_plus (Nat.le_refl 16) here
    | octal here =>
      obtain ⟨length, values, _ | ⟨digit, digits⟩, -⟩ := here
      · cases length
      · obtain rfl := (List.cons.inj same).1
        rw [(octal_apart digit).1] at code
        cases code

/-! ### Quotes -/

theorem literalBody_quoted (quote : Char) (body : List Char) :
    literalBody (quote :: body ++ [quote]) = .ok (quote, body) := by
  rw [List.cons_append, literalBody, List.getLast?_concat, if_pos rfl, List.dropLast_concat]

/-- How a character is written between backquotes. -/
def backquotedChar (c : Char) : List Char :=
  if c = '\x60' then ['\x60', '\x60'] else [c]

theorem halveBackquotes_flatMap (value : List Char) : halveBackquotes (value.flatMap backquotedChar) = value := by
  induction value with
  | nil => rfl
  | cons c value ih =>
    rw [List.flatMap_cons, backquotedChar]
    split
    · next same =>
      subst same
      exact congrArg (List.cons '\x60') ih
    · next other =>
      rw [List.singleton_append, halveBackquotes, ih]
      exact fun _ same => absurd same other

end GrammarKit.Spelling

namespace GrammarKit.Metagrammar

open Regex Spelling

/-! ### The tokens -/

/-- What literals in quotes consist of: backslashes with a character that breaks no line, and `others`. -/
def quotedItem (others : Unicode.CharSet) : Pattern :=
  .alt (.seq (.literal ['\\']) (.set ⟨[0, 10, 11, 1114112]⟩)) (.set others)

/-- A literal between quotes of a kind. -/
def quotedLiteral (quote : Char) (others : Unicode.CharSet) : Pattern :=
  .seq (.literal [quote]) (.seq (.repetition (quotedItem others) 0 none true) (.literal [quote]))

/-- A literal between backquotes. -/
def backquotedLiteral : Pattern :=
  .seq (.literal ['\x60']) (.seq
    (.repetition (.alt (.literal ['\x60', '\x60']) (.set ⟨[0, 96, 97, 1114112]⟩)) 0 none true)
    (.literal ['\x60']))

theorem quoted_of_spells {quote : Char} {others : Unicode.CharSet} {cs : List Char}
    (spelled : (quotedLiteral quote others).Spells cs) : ∃ body, cs = quote :: body ++ [quote] := by
  obtain ⟨_, _, rfl, ⟨body, _, -, rfl, rfl⟩, rfl⟩ := spelled
  exact ⟨body, rfl⟩

theorem spells_quoted {quote : Char} {others : Unicode.CharSet} {parts : List (List Char)}
    (each : ∀ part ∈ parts, (quotedItem others).Spells part) :
    (quotedLiteral quote others).Spells (quote :: parts.flatten ++ [quote]) :=
  ⟨[quote], parts.flatten ++ [quote], rfl,
    ⟨parts.flatten, [quote], ⟨parts, Nat.zero_le _, nofun, each, rfl⟩, rfl, rfl⟩, rfl⟩

theorem backquoted_of_spells {cs : List Char} (spelled : backquotedLiteral.Spells cs) :
    ∃ value : List Char, cs = '\x60' :: value.flatMap backquotedChar ++ ['\x60'] := by
  obtain ⟨_, _, rfl, ⟨_, _, ⟨parts, -, -, each, rfl⟩, rfl, rfl⟩, rfl⟩ := spelled
  suffices ∃ value : List Char, parts.flatten = value.flatMap backquotedChar from
    have ⟨value, same⟩ := this
    ⟨value, by rw [same]; rfl⟩
  induction parts with
  | nil => exact ⟨[], rfl⟩
  | cons part parts ih =>
    obtain ⟨here, others⟩ := List.forall_mem_cons.mp each
    obtain ⟨value, same⟩ := ih others
    rcases here with rfl | ⟨c, inside, rfl⟩
    · exact ⟨'\x60' :: value, congrArg (['\x60', '\x60'] ++ ·) same⟩
    · refine ⟨c :: value, ?_⟩
      have other : c ≠ '\x60' := by
        rintro rfl
        cases inside
      rw [List.flatten_cons, List.flatMap_cons, backquotedChar, if_neg other, same]

/-- The tokens of literals, as a pattern. -/
def literals : Pattern :=
  .alt (quotedLiteral '"' ⟨[0, 34, 35, 92, 93, 1114112]⟩)
    (.alt (quotedLiteral '\'' ⟨[0, 39, 40, 92, 93, 1114112]⟩) backquotedLiteral)

theorem quotes_of_spells {cs : List Char} (spelled : literals.Spells cs) :
    (∃ value : List Char, cs = '\x60' :: value.flatMap backquotedChar ++ ['\x60']) ∨
      ∃ quote body, (quote = '"' ∨ quote = '\'') ∧ cs = quote :: body ++ [quote] := by
  rcases spelled with double | single | back
  · obtain ⟨body, here⟩ := quoted_of_spells double
    exact .inr ⟨'"', body, .inl rfl, here⟩
  · obtain ⟨body, here⟩ := quoted_of_spells single
    exact .inr ⟨'\'', body, .inr rfl, here⟩
  · exact .inl (backquoted_of_spells back)

theorem read_string : Pattern.read string.toList = .ok literals := by
  have known : (Pattern.read string.toList).toOption = some literals := by decide +kernel
  cases read : Pattern.read string.toList with
  | ok pattern =>
    rw [read] at known
    rw [Option.some.inj known]
  | error e =>
    rw [read] at known
    cases known

/-- What the terminal of literals puts out is spelled by that pattern. -/
theorem literals_of_match {made : Terminal} (compiled : terminal (.regex string) (some padding) = .ok made) {s : Slice}
    {m : Match} (matched : made.regex.match? s = some m) : literals.Spells m.output.chars := by
  let blanks : Pattern := .repetition (.set Unicode.blanks) 0 none true
  have known : (Pattern.read (terminalPattern (.regex string) (some padding)).toList).toOption
      = some (.seq (.assertion .textStart) (.seq blanks (.seq (.group 1 literals) blanks))) := by
    decide +kernel
  obtain ⟨pattern, machine, read, built, rfl⟩ := terminal_eq_ok compiled
  rw [read] at known
  obtain rfl := Option.some.inj known
  exact spells_of_padded rfl rfl rfl built matched

/-! ### Literals -/

/-- A literal that stands for nothing is reported where it stands, and is kept as it is written. -/
theorem run_readLiteral_error {node : Generic.Node} {error : LiteralError}
    (failed : unescape node.chars = .error error) (violations : List Violation) :
    (readLiteral node).run violations = .ok (node.text, violations ++
      [⟨.invalidLiteral, "literal " ++ node.text ++ " " ++ error.message, node.slice?.map Slice.position⟩]) := by
  rw [readLiteral, failed]
  rfl

/-- A literal in backquotes is read without an error. -/
theorem unescape_backquoted (value : List Char) :
    unescape ('\x60' :: value.flatMap backquotedChar ++ ['\x60']) = .ok value := by
  rw [unescape, literalBody_quoted]
  exact congrArg Except.ok (halveBackquotes_flatMap value)

/-- A literal in other quotes is read as the text that it stands for. -/
theorem unescape_quoted {quote : Char} (kind : quote = '"' ∨ quote = '\'') (body value : List Char) :
    unescape (quote :: body ++ [quote]) = .ok value ↔ Denotes (SignedDigits 16) body value := by
  have escaped : quote ≠ '\x60' := by rcases kind with rfl | rfl <;> decide
  rw [unescape, literalBody_quoted]
  show (if quote = '\x60' then _ else _) = _ ↔ _
  rw [if_neg escaped, unescapeBody_eq_ok]

/-- **What literals stand for.**  The terminal of literals puts out texts that its pattern spells.  Such a text in
backquotes is its value with every backquote doubled, and is read without an error.  A text in other quotes has a value
if it consists of characters other than backslashes and of escapes, where a plus sign may stand in place of the first
hexadecimal digit of a code; if there is no such sign, all codes are so many digits.  All other literals are
reported. -/
theorem unescape_literals {pattern : Pattern} (read : Pattern.read string.toList = .ok pattern) :
    (∀ made, terminal (.regex string) (some padding) = .ok made → ∀ s m, made.regex.match? s = some m →
      pattern.Spells m.output.chars) ∧
    ∀ cs, pattern.Spells cs →
      (∃ value : List Char, cs = '\x60' :: value.flatMap backquotedChar ++ ['\x60'] ∧ unescape cs = .ok value) ∨
      ∃ quote body, (quote = '"' ∨ quote = '\'') ∧ cs = quote :: body ++ [quote] ∧
        (∀ value, unescape cs = .ok value ↔ Denotes (SignedDigits 16) body value) ∧
        ((∀ code ∈ codeEscapes, ¬ ['\\', code.1, '+'] <:+: body) →
          ∀ value, unescape cs = .ok value ↔ Denotes (Digits 16) body value) ∧
        ∀ error, unescape cs = .error error → ∀ node : Generic.Node, node.chars = cs → ∀ violations,
          (readLiteral node).run violations = .ok (node.text, violations ++
            [⟨.invalidLiteral, "literal " ++ node.text ++ " " ++ error.message, node.slice?.map Slice.position⟩]) := by
  obtain rfl := Except.ok.inj (read_string.symm.trans read)
  refine ⟨fun made compiled s m matched => literals_of_match compiled matched, fun cs spelled => ?_⟩
  rcases quotes_of_spells spelled with ⟨value, rfl⟩ | ⟨quote, body, kind, rfl⟩
  · exact .inl ⟨value, rfl, unescape_backquoted value⟩
  · have reads := unescape_quoted kind body
    refine .inr ⟨quote, body, kind, rfl, reads, fun signless value => ?_, fun error failed node same => ?_⟩
    · rw [reads]
      exact ⟨fun denotes => denotes.unsigned signless, .mono .inl⟩
    · rw [← same] at failed
      exact run_readLiteral_error failed

/-- A literal of one code, and one with an escape that is none. -/
theorem unescape_literals_singleQuotes :
    Pattern.read string.toList = .ok literals ∧
      literals.Spells "'\\x41'".toList ∧ Denotes (Digits 16) "\\x41".toList ['A'] ∧
      literals.Spells "'\\g'".toList ∧ (readLiteral (.leaf (.ofText "'\\g'"))).run [] = .ok ("'\\g'",
        [⟨.invalidLiteral, "literal '\\g' has an unrecognized escape \\g", some (1, 1)⟩]) := by
  have good : ∀ part ∈ [['\\', 'x'], ['4'], ['1']], (quotedItem ⟨[0, 39, 40, 92, 93, 1114112]⟩).Spells part := by
    simp only [List.forall_mem_cons, List.not_mem_nil, false_imp_iff, implies_true, and_true]
    exact ⟨.inl ⟨_, _, rfl, ⟨'x', by decide, rfl⟩, rfl⟩, .inr ⟨'4', by decide, rfl⟩, .inr ⟨'1', by decide, rfl⟩⟩
  have good : literals.Spells "'\\x41'".toList := .inr (.inl (spells_quoted good))
  have bad : ∀ part ∈ [['\\', 'g']], (quotedItem ⟨[0, 39, 40, 92, 93, 1114112]⟩).Spells part :=
    List.forall_mem_singleton.mpr (.inl ⟨_, _, rfl, ⟨'g', by decide, rfl⟩, rfl⟩)
  have bad : literals.Spells "'\\g'".toList := .inr (.inl (spells_quoted bad))
  obtain ⟨-, known⟩ := unescape_literals read_string
  refine ⟨read_string, good, ?_, bad, ?_⟩
  · obtain ⟨value, chars, -⟩ | ⟨quote, body, -, chars, -, unsigned, -⟩ := known _ good
    · cases chars
    · obtain ⟨rfl, chars⟩ := List.cons.inj chars
      obtain rfl : "\\x41".toList = body := List.append_cancel_right chars
      exact (unsigned (by decide) ['A']).mp (by decide)
  · obtain ⟨value, chars, -⟩ | ⟨quote, body, -, -, -, -, reported⟩ := known _ bad
    · cases chars
    · exact reported (.unknownEscape 'g') (by decide) (.leaf (.ofText "'\\g'")) rfl []

/-- A plus sign in place of the first digit: the literal is read although its escape stands for nothing. -/
theorem unescape_signed :
    literals.Spells "\"\\x+4\"".toList ∧ unescape "\"\\x+4\"".toList = .ok ['\x04'] ∧
      ∀ value, ¬ Denotes (Digits 16) "\\x+4".toList value := by
  have parts : ∀ part ∈ [['\\', 'x'], ['+'], ['4']], (quotedItem ⟨[0, 34, 35, 92, 93, 1114112]⟩).Spells part := by
    simp only [List.forall_mem_cons, List.not_mem_nil, false_imp_iff, implies_true, and_true]
    exact ⟨.inl ⟨_, _, rfl, ⟨'x', by decide, rfl⟩, rfl⟩, .inr ⟨'+', by decide, rfl⟩, .inr ⟨'4', by decide, rfl⟩⟩
  exact ⟨.inl (spells_quoted parts), by decide, not_denotes_signed List.mem_cons_self ['4']⟩

end GrammarKit.Metagrammar
