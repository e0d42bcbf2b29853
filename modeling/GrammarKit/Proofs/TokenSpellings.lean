/-
Module: GrammarKit.Proofs.TokenSpellings
Purpose: Terminals are read back as they were written.  A text in double quotes is spelled character by character, as
  the character itself or as an escape that stands for it.  A pattern that has been read has no blanks but spaces, and
  no backslash in it stands before an underscore; such a pattern is read back from its spelling.
Main exports: Spelling.QuotedBody, Spelling.ReadBody, Spelling.spellings_read
-/
import GrammarKit.Proofs.LiteralEscapes
import GrammarKit.Spelling.RegexBody

namespace GrammarKit.Spelling

/-! ### Literals -/

/-- What may stand between double quotes: backslashes with a character that breaks no line, and other characters that
are no double quotes. -/
inductive QuotedBody : List Char → Prop
  | nil : QuotedBody []
  | plain {c : Char} {cs : List Char} (other : c ≠ '\\') (inside : c ≠ '"') (rest : QuotedBody cs) :
      QuotedBody (c :: cs)
  | escape {c : Char} {cs : List Char} (unbroken : c ≠ '\n') (rest : QuotedBody cs) : QuotedBody ('\\' :: c :: cs)

/-- A character that stands for itself between double quotes and breaks no line. -/
structure IsPlain (c : Char) : Prop where
  other : c ≠ '\\'
  inside : c ≠ '"'
  unbroken : c ≠ '\n'

/-- The ways in which a character is written: as it is, with the letter of an escape, or with its code. -/
inductive Written (c : Char) : List Char → Prop
  | plain (plain : IsPlain c) : Written c [c]
  | letter {e : Char} (known : (e, c) ∈ letterEscapes) : Written c ['\\', e]
  | code {high low : Char} (digits : Digits 16 2 [high, low] c.toNat) : Written c ['\\', 'x', high, low]

theorem digits_twoHexDigits {n : Nat} (small : n < 256) : Digits 16 2 (twoHexDigits n) n := by
  have high : IsDigit 16 (Nat.digitChar (n / 16)) (n / 16) := ⟨by omega, .inl rfl⟩
  have low : IsDigit 16 (Nat.digitChar (n % 16)) (n % 16) := ⟨by omega, .inl rfl⟩
  refine ⟨rfl, [n / 16, n % 16], .cons high (.cons low .nil), ?_⟩
  simp only [List.reverse_cons, List.reverse_nil, List.nil_append, List.singleton_append, Nat.ofDigits_cons,
    Nat.ofDigits_nil]
  omega

theorem written_literalChar (c : Char) : Written c (literalChar c) := by
  rw [literalChar]
  -- five characters have an escape of one letter
  iterate 5
    split
    · next same =>
      subst same
      exact .letter (by decide)
  split
  · next control =>
    have small : c.toNat < 256 := by
      rcases Bool.or_eq_true_iff.mp control with below | same
      · exact Nat.lt_trans (of_decide_eq_true below) (by decide)
      · exact of_decide_eq_true same ▸ by decide
    exact .code (digits_twoHexDigits small)
  · next backslash quote newline _ _ _ => exact .plain ⟨backslash, quote, newline⟩

theorem isPlain_of_isDigit {c : Char} {value : Nat} (digit : IsDigit 16 c value) : IsPlain c := by
  have table : ∀ value < 16,
      (Nat.digitChar value ≠ '\\' ∧ Nat.digitChar value ≠ '"' ∧ Nat.digitChar value ≠ '\n') ∧
      (Nat.digitChar value).toUpper ≠ '\\' ∧ (Nat.digitChar value).toUpper ≠ '"' ∧
        (Nat.digitChar value).toUpper ≠ '\n' := by
    decide
  obtain ⟨below, digit⟩ := digit
  obtain ⟨⟨other, inside, unbroken⟩, other', inside', unbroken'⟩ := table value below
  rcases digit with rfl | rfl
  · exact ⟨other, inside, unbroken⟩
  · exact ⟨other', inside', unbroken'⟩

theorem isPlain_of_digits {count n : Nat} {cs : List Char} (digits : Digits 16 count cs n) : ∀ c ∈ cs, IsPlain c := by
  obtain ⟨-, values, digits, -⟩ := digits
  induction digits with
  | nil => nofun
  | cons digit _ ih => exact List.forall_mem_cons.mpr ⟨isPlain_of_isDigit digit, ih⟩

theorem letterEscapes_unbroken {e c : Char} (known : (e, c) ∈ letterEscapes) : e ≠ '\n' := by
  have table : ∀ pair ∈ letterEscapes, pair.1 ≠ '\n' := by decide
  exact table _ known

namespace Written

variable {c : Char} {written cs value : List Char}

/-- What is written for a character stands for it. -/
theorem denotes (h : Written c written) (rest : Denotes (Digits 16) cs value) :
    Denotes (Digits 16) (written ++ cs) (c :: value) := by
  cases h with
  | plain plain => exact .plain plain.other rest
  | letter known => exact .escape (.letter known) rest
  | code digits => exact .escape (.code List.mem_cons_self digits) rest

/-- What is written for a character may stand between double quotes. -/
theorem quotedBody (h : Written c written) (rest : QuotedBody cs) : QuotedBody (written ++ cs) := by
  cases h with
  | plain plain => exact .plain plain.other plain.inside rest
  | letter known => exact .escape (letterEscapes_unbroken known) rest
  | @code high low digits =>
    have digit := isPlain_of_digits digits
    have first := digit high List.mem_cons_self
    have second := digit low (.tail _ List.mem_cons_self)
    exact .escape (by decide) (.plain first.other first.inside (.plain second.other second.inside rest))

/-- What is written for a character breaks no line. -/
theorem unbroken (h : Written c written) : '\n' ∉ written := by
  cases h with
  | plain plain => simpa using plain.unbroken.symm
  | letter known => simpa using (letterEscapes_unbroken known).symm
  | code digits =>
    have here : '\n' ∉ _ := fun member => (isPlain_of_digits digits _ member).unbroken rfl
    simpa using here

end Written

/-- The body of the literal of a text. -/
def literalChars (text : List Char) : List Char :=
  text.flatMap literalChar

theorem literalChars_denotes (text : List Char) : Denotes (Digits 16) (literalChars text) text := by
  induction text with
  | nil => exact .nil
  | cons c text ih => exact (written_literalChar c).denotes ih

theorem literalChars_quotedBody (text : List Char) : QuotedBody (literalChars text) := by
  induction text with
  | nil => exact .nil
  | cons c text ih => exact (written_literalChar c).quotedBody ih

theorem literalChars_unbroken (text : List Char) : '\n' ∉ literalChars text := by
  rw [literalChars, List.mem_flatMap]
  rintro ⟨c, -, member⟩
  exact (written_literalChar c).unbroken member

theorem toList_quoteLiteral (text : String) :
    (quoteLiteral text).toList = '"' :: literalChars text.toList ++ ['"'] := by
  rw [quoteLiteral, String.toList_ofList]
  rfl

example : quoteLiteral "a\"b\\c\n\x01" = "\"a\\\"b\\\\c\\n\\x01\"" := by
  decide

/-! ### Regular expressions -/

/-- What is left of a written body when it has been read: spaces, other characters that are no blanks, and backslashes
before a character that is neither a blank nor an underscore.  A backslash may also come last. -/
inductive ReadBody : List Char → Prop
  | nil : ReadBody []
  | space {cs : List Char} (rest : ReadBody cs) : ReadBody (' ' :: cs)
  | plain {c : Char} {cs : List Char} (other : c ≠ '\\') (solid : Unicode.isBlank c = false) (rest : ReadBody cs) :
      ReadBody (c :: cs)
  | escape {c : Char} {cs : List Char} (other : c ≠ '_') (solid : Unicode.isBlank c = false) (rest : ReadBody cs) :
      ReadBody ('\\' :: c :: cs)
  | last : ReadBody ['\\']

/-- Without blanks, a backslash before an underscore becomes a space and everything else stays. -/
theorem readBody_unescapeSpaces {cs : List Char} (solid : ∀ c ∈ cs, Unicode.isBlank c = false) :
    ReadBody (unescapeSpaces cs) := by
  fun_induction unescapeSpaces cs with
  | case1 => exact .nil
  | case2 cs ih =>
    obtain ⟨-, -, solid⟩ := List.forall_mem_cons.mp solid |>.imp_right List.forall_mem_cons.mp
    exact .space (ih solid)
  | case3 c cs other ih =>
    obtain ⟨-, here, solid⟩ := List.forall_mem_cons.mp solid |>.imp_right List.forall_mem_cons.mp
    exact .escape other here (ih solid)
  | case4 c cs _ unpaired ih =>
    obtain ⟨here, solid⟩ := List.forall_mem_cons.mp solid
    by_cases backslash : c = '\\'
    · -- a backslash that is in no pair is the last character
      cases cs with
      | nil => exact backslash ▸ .last
      | cons next cs => exact (unpaired next cs backslash rfl).elim
    · exact .plain backslash here (ih solid)

theorem readBody_regexBody (written : List Char) : ReadBody (regexBody written) := by
  refine readBody_unescapeSpaces fun c member => ?_
  simpa using (List.mem_filter.mp member).2

theorem regexBodyChar_of_solid {c : Char} (solid : Unicode.isBlank c = false) : regexBodyChar c = [c] := by
  have other {blank : Char} (known : Unicode.isBlank blank = true) : c ≠ blank := by
    rintro rfl
    rw [known] at solid
    cases solid
  rw [regexBodyChar, if_neg (other (by decide)), if_neg (other (by decide)), if_neg (other (by decide)),
    if_neg (other (by decide))]

namespace ReadBody

variable {cs : List Char}

/-- The spelling of what has been read has no blanks. -/
theorem solid (h : ReadBody cs) : ∀ c ∈ cs.flatMap regexBodyChar, Unicode.isBlank c = false := by
  induction h with
  | nil => nofun
  | space _ ih =>
    exact List.forall_mem_cons.mpr ⟨by decide, List.forall_mem_cons.mpr ⟨by decide, ih⟩⟩
  | plain _ solid _ ih =>
    rw [List.flatMap_cons, regexBodyChar_of_solid solid]
    exact List.forall_mem_cons.mpr ⟨solid, ih⟩
  | escape _ solid _ ih =>
    rw [List.flatMap_cons, List.flatMap_cons, regexBodyChar_of_solid solid]
    exact List.forall_mem_cons.mpr ⟨by decide, List.forall_mem_cons.mpr ⟨solid, ih⟩⟩
  | last => exact List.forall_mem_singleton.mpr (by decide)

/-- The spelling of what has been read stands for it. -/
theorem unescapeSpaces_flatMap (h : ReadBody cs) : unescapeSpaces (cs.flatMap regexBodyChar) = cs := by
  induction h with
  | nil => rfl
  | @space cs _ ih =>
    show unescapeSpaces ('\\' :: '_' :: cs.flatMap regexBodyChar) = ' ' :: cs
    rw [unescapeSpaces, ih]
  | @plain c cs other solid _ ih =>
    rw [List.flatMap_cons, regexBodyChar_of_solid solid, List.singleton_append, unescapeSpaces, ih]
    · exact fun _ same => absurd same other
    · exact fun _ _ same => absurd same other
  | @escape c cs other solid _ ih =>
    rw [List.flatMap_cons, List.flatMap_cons, regexBodyChar_of_solid solid]
    show unescapeSpaces ('\\' :: c :: cs.flatMap regexBodyChar) = _
    rw [unescapeSpaces, ih]
    exact other
  | last => rfl

theorem regexBody_flatMap (h : ReadBody cs) : regexBody (cs.flatMap regexBodyChar) = cs := by
  rw [regexBody, List.filter_eq_self.mpr fun c member => by rw [h.solid c member]; rfl, h.unescapeSpaces_flatMap]

end ReadBody

/-! ### Both kinds of terminals -/

/-- **Terminals are read back.**  The literal of every text is a body between double quotes in which every backslash
stands before a character that breaks no line and every other double quote behind a backslash; it has no line breaks,
and is read as the text.  A pattern that has been read from a body, whatever the body, is read again from its
spelling. -/
theorem spellings_read :
    (∀ text : String,
      (∃ body, (quoteLiteral text).toList = '"' :: body ++ ['"'] ∧ QuotedBody body ∧ '\n' ∉ body) ∧
        unescape (quoteLiteral text).toList = .ok text.toList) ∧
    ∀ written : List Char,
      regexBody (escapeRegexBody (String.ofList (regexBody written))).toList = regexBody written := by
  refine ⟨fun text => ?_, fun written => ?_⟩
  · rw [toList_quoteLiteral]
    refine ⟨⟨_, rfl, literalChars_quotedBody _, literalChars_unbroken _⟩, ?_⟩
    exact (Metagrammar.unescape_quoted (.inl rfl) _ _).mpr ((literalChars_denotes _).mono .inl)
  · rw [escapeRegexBody, String.toList_ofList, String.toList_ofList]
    exact (readBody_regexBody written).regexBody_flatMap

end GrammarKit.Spelling
