/-
Module: GrammarKit.Unicode.Segment
Purpose: The classes of characters by which text is split into graphemes, words and sentences, as patterns
  ask for them.  Most of each class follows from other properties; what does not is listed.
Main exports: ofGraphemeBreak?, ofWordBreak?, ofSentenceBreak?
-/
import GrammarKit.Unicode.Property
import GrammarKit.Unicode.Script

namespace GrammarKit.Unicode

/-- Classes by their names, in lower case and without underscores. -/
abbrev BreakClasses := List (List String × CharSet)

/-- The class of a name. -/
def BreakClasses.find? (classes : BreakClasses) (name : String) : Option CharSet :=
  (List.find? (·.1.contains name) classes).map (·.2)

/-- The joiner of zero width that joins. -/
def joiner : CharSet := .single 0x200d

/-- The joiner of zero width that keeps apart. -/
def nonJoiner : CharSet := .single 0x200c

/-- Carriage return and line feed. -/
def plainBreaks : CharSet := .ofRanges [('\n', '\n'), ('\r', '\r')]

/-- The next line control, the line separator and the paragraph separator. -/
def otherBreaks : CharSet := .ofRanges [('\u0085', '\u0085'), ('\u2028', '\u2029')]

/-! ### Graphemes -/

/-- Consonants that begin a Korean syllable. -/
def jamoLeading : CharSet := .ofGaps ["4352 96 38912 29"]

/-- Vowels of Korean syllables, and vowels of other scripts that combine as these do. -/
def jamoVowel : CharSet := .ofGaps ["4448 72 50696 23 38300 1 3 4"]

/-- Consonants that end a Korean syllable. -/
def jamoTrailing : CharSet := .ofGaps ["4520 88 50635 49"]

/-- Korean syllables without a consonant at their end: every twenty-eighth syllable. -/
def syllablesOpen : CharSet :=
  .ofBounds ((List.range 399).flatMap fun i => [0xac00 + 28 * i, 0xac00 + 28 * i + 1])

/-- Korean syllables with a consonant at their end. -/
def syllablesClosed : CharSet :=
  (CharSet.range 0xac00 0xd7a3).diff syllablesOpen

/-- Letters and signs that are written with the consonant after them. -/
def prefixedLetters : CharSet := .ofGaps ["3406 1 66675 2 525 1 1389 1 1 1 248 1 73 6 700 1 443 1"]

/-- What belongs to the grapheme after it. -/
def prepended : CharSet :=
  prependedMark.union prefixedLetters

/-- What always belongs to the grapheme before it. -/
def graphemeJoined : CharSet :=
  (graphemeExtend.union emojiModifier).diff joiner

/-- Spacing marks that do not belong to the grapheme before them. -/
def freeMarks : CharSet := .ofGaps
    ["4139 2 11 1 41 3 2 7 21 1 3 6 2 1 10 3 2500 1 1 2 36886 1 1 1 27810 2"]

/-- Marks with a width of their own that belong to the grapheme before them, and two vowels. -/
def spacingMarks : CharSet :=
  (((ofCategories [.Mc]).union (.ofRanges [('\u0e33', '\u0e33'), ('\u0eb3', '\u0eb3')])).diff
    graphemeJoined).diff freeMarks

/-- What belongs to no other character. -/
def controls : CharSet :=
  let ignorable := (ofCategories [.Cn]).inter defaultIgnorable
  let all := (ofCategories [.Zl, .Zp, .Cc, .Cf]).union ignorable
  [plainBreaks, joiner, nonJoiner, prependedMark, graphemeJoined].foldl CharSet.diff all

/-- The classes for graphemes. -/
def graphemeBreaks : BreakClasses :=
  [(["control", "cn"], controls), (["cr"], .single 0x0d), (["extend", "ex"], graphemeJoined),
   (["l"], jamoLeading), (["lf"], .single 0x0a), (["lv"], syllablesOpen), (["lvt"], syllablesClosed),
   (["prepend", "pp"], prepended), (["regionalindicator", "ri"], regionalIndicator),
   (["spacingmark", "sm"], spacingMarks), (["t"], jamoTrailing), (["v"], jamoVowel),
   (["zwj"], joiner)]

/-- The characters of a class for graphemes. -/
def ofGraphemeBreak? (name : String) : Option CharSet :=
  graphemeBreaks.find? name

/-! ### Words -/

/-- The characters of a script by its code. -/
def scriptOf (code : String) : CharSet :=
  (ofScript? code).getD .empty

/-- What extends a letter of a word. -/
def wordExtenders : CharSet :=
  graphemeJoined.union (ofCategories [.Mc])

/-- Format characters that are passed over inside a word. -/
def wordFormats : CharSet :=
  [.single 0x200b, joiner, nonJoiner, wordExtenders, prepended].foldl CharSet.diff (ofCategories [.Cf])

/-- Marks used with Katakana. -/
def katakanaMarks : CharSet := .ofGaps ["12337 5 101 2 3 1 91 1 52851 1"]

/-- Katakana and marks used with it. -/
def katakana : CharSet :=
  ((scriptOf "kana").union katakanaMarks).diff wordExtenders

/-- Letters of the Hebrew script. -/
def hebrewLetters : CharSet :=
  (scriptOf "hebr").inter (ofCategories [.Lo])

/-- What counts as a letter of a word although it is not alphabetic. -/
def letterlike : CharSet := .ofGaps
    ["706 4 12 6 6 2 5 7 1 1 1 17 602 3 1 1 43 1 104 1 283 1 40952 15 9 2 103 2 976 1"]

/-- Letters of scripts that are written without blanks between words. -/
def unspacedLetters : CharSet := .ofGaps
    ["3585 48 1 2 12 7 58 2 1 1 1 5 1 24 1 1 1 10 1 2 9 1 2 5 1 1 21 4 288 43 20 1 16 6 4 4 3 1 3 2 7",
     "3 4 13 12 1 1777 52 35 1 4 1 371 30 2 5 11 44 4 26 86 53 82 1 36664 5 1 10 10 5 97 23 3 1 3 50 1",
     "1 3 2 2 5 2 1 1 1 24 3 27682 27 37 7"]

/-- Letters of words, where words are told apart by blanks. -/
def wordLetters : CharSet :=
  let spaced := [ideographic, unspacedLetters, scriptOf "hira"].foldl CharSet.diff alphabetic
  [katakana, wordExtenders, hebrewLetters].foldl CharSet.diff (spaced.union letterlike)

/-- Digits, the marks of Arabic numbers, and signs written before numbers. -/
def numerals : CharSet :=
  ((digits.union (.range 0x66b 0x66c)).union prependedMark).diff (.single 0x70f)

/-- What stands between letters or between digits. -/
def midWord : CharSet := .ofGaps ["46 1 8169 2 10 1 56877 1 180 1 6 1"]

/-- What stands between letters. -/
def midLetter : CharSet := .ofGaps ["58 1 124 1 719 1 471 1 148 1 6706 1 56811 1 65 1 196 1"]

/-- What stands between digits. -/
def midNumber : CharSet := .ofGaps
    ["44 1 14 1 834 1 522 1 130 2 94 1 395 1 6219 1 56779 1 3 1 59 1 3 1 183 1 14 1"]

/-- Blanks that separate words and may end a line. -/
def wordBlanks : CharSet :=
  (ofCategories [.Zs]).diff (.ofRanges [('\u00a0', '\u00a0'), ('\u2007', '\u2007'), ('\u202f', '\u202f')])

/-- The classes for words. -/
def wordBreaks : BreakClasses :=
  [(["aletter", "le"], wordLetters), (["cr"], .single 0x0d), (["doublequote", "dq"], .single 0x22),
   (["extend"], wordExtenders),
   (["extendnumlet", "ex"], (ofCategories [.Pc]).union (.single 0x202f)),
   (["format", "fo"], wordFormats), (["hebrewletter", "hl"], hebrewLetters),
   (["katakana", "ka"], katakana), (["lf"], .single 0x0a), (["midletter", "ml"], midLetter),
   (["midnum", "mn"], midNumber), (["midnumlet", "mb"], midWord),
   (["newline", "nl"], otherBreaks.union (.range 0x0b 0x0c)),
   (["numeric", "nu"], numerals.diff (.single 0x66c)),
   (["regionalindicator", "ri"], regionalIndicator), (["singlequote", "sq"], .single 0x27),
   (["wsegspace"], wordBlanks), (["zwj"], joiner)]

/-- The characters of a class for words. -/
def ofWordBreak? (name : String) : Option CharSet :=
  wordBreaks.find? name

/-! ### Sentences -/

/-- What extends a character of a sentence. -/
def sentenceExtenders : CharSet :=
  (graphemeExtend.union joiner).union (ofCategories [.Mc])

/-- Format characters that are passed over inside a sentence. -/
def sentenceFormats : CharSet :=
  [joiner, nonJoiner, sentenceExtenders, prepended].foldl CharSet.diff (ofCategories [.Cf])

/-- Lowercase characters of scripts in which a sentence begins with an uppercase one. -/
def sentenceLower : CharSet :=
  (lowercase.diff graphemeExtend).diff
    (.ofRanges [('\u10d0', '\u10fa'), ('\u10fd', '\u10ff')])

/-- Uppercase and titlecase characters of these scripts. -/
def sentenceUpper : CharSet :=
  (uppercase.union (ofCategories [.Lt])).diff
    (.ofRanges [('\u1c90', '\u1cba'), ('\u1cbd', '\u1cbf')])

/-- Other letters. -/
def sentenceLetters : CharSet :=
  [sentenceLower, sentenceUpper, sentenceExtenders].foldl CharSet.diff
    (alphabetic.union (.ofRanges [('\u05f3', '\u05f3'), ('\u070f', '\u070f')]))

/-- Full stops, which may end a sentence or an abbreviation. -/
def fullStops : CharSet := .ofGaps ["46 1 8181 1 56877 1 187 1"]

/-- Punctuation after which a sentence goes on. -/
def sentenceContinuers : CharSet := .ofGaps
    ["44 2 12 2 834 1 478 1 174 2 490 1 4105 1 5 1 2058 2 4076 1 52750 2 1 2 28 2 29 2 2 2 2 1 10 1",
     "168 2 12 2 72 1"]

/-- Quotation marks and ornaments like them. -/
def quotes : CharSet := .ofGaps
    ["34 1 4 1 131 1 15 1 8028 2 1 3 1 1 25 2 1824 6 1695 14 14 2 2 2 116820 3"]

/-- Brackets and quotation marks. -/
def closers : CharSet :=
  [.single 0x5f3, fullStops, sentenceTerminal].foldl CharSet.diff
    ((ofCategories [.Ps, .Pe]).union quotes)

/-- The classes for sentences. -/
def sentenceBreaks : BreakClasses :=
  [(["aterm", "at"], fullStops), (["close", "cl"], closers), (["cr"], .single 0x0d),
   (["extend", "ex"], sentenceExtenders), (["format", "fo"], sentenceFormats),
   (["lf"], .single 0x0a), (["lower", "lo"], sentenceLower), (["numeric", "nu"], numerals),
   (["oletter", "le"], sentenceLetters), (["scontinue", "sc"], sentenceContinuers),
   (["sep", "se"], otherBreaks), (["sp"], (blanks.diff plainBreaks).diff otherBreaks),
   (["sterm", "st"], sentenceTerminal.diff fullStops), (["upper", "up"], sentenceUpper)]

/-- The characters of a class for sentences. -/
def ofSentenceBreak? (name : String) : Option CharSet :=
  sentenceBreaks.find? name

end GrammarKit.Unicode
