/-
Module: GrammarKit.Regex.PatternError
Purpose: The reasons for which a text is no pattern.
Main exports: PatternError, PatternError.reason
-/

namespace GrammarKit.Regex

/-- Why a pattern cannot be read. -/
inductive PatternError where
  | classEscape
  | classRange
  | classRangeBoundary
  | classUnclosed
  | decimalInvalid
  | hexEmpty
  | hexInvalid
  | hexDigit
  | escapeUnfinished
  | escapeUnknown
  | flagDangling
  | flagDuplicate
  | flagNegationRepeated
  | flagUnfinished
  | flagUnknown
  | groupNameDuplicate
  | groupNameEmpty
  | groupNameInvalid
  | groupNameUnclosed
  | groupUnclosed
  | groupUnopened
  | repetitionRange
  | repetitionDecimal
  | repetitionUnclosed
  | repetitionMissing
  | boundaryUnknown
  | boundaryUnclosed
  | propertyInvalid
  | propertyUnknown
  | backreference
  | lookAround
  | notUnicode
  | nestedTooDeep
  | tooLarge
deriving Repr, Inhabited, DecidableEq

/-- The reason in words. -/
def PatternError.reason : PatternError → String
  | classEscape => "invalid escape sequence found in character class"
  | classRange => "invalid character class range, the start must be <= the end"
  | classRangeBoundary => "invalid range boundary, must be a literal"
  | classUnclosed => "unclosed character class"
  | decimalInvalid => "decimal literal invalid"
  | hexEmpty => "hexadecimal literal empty"
  | hexInvalid => "hexadecimal literal is not a Unicode scalar value"
  | hexDigit => "invalid hexadecimal digit"
  | escapeUnfinished => "incomplete escape sequence, reached end of pattern prematurely"
  | escapeUnknown => "unrecognized escape sequence"
  | flagDangling => "dangling flag negation operator"
  | flagDuplicate => "duplicate flag"
  | flagNegationRepeated => "flag negation operator repeated"
  | flagUnfinished => "expected flag but got end of regex"
  | flagUnknown => "unrecognized flag"
  | groupNameDuplicate => "duplicate capture group name"
  | groupNameEmpty => "empty capture group name"
  | groupNameInvalid => "invalid capture group character"
  | groupNameUnclosed => "unclosed capture group name"
  | groupUnclosed => "unclosed group"
  | groupUnopened => "unopened group"
  | repetitionRange => "invalid repetition count range, the start must be <= the end"
  | repetitionDecimal => "repetition quantifier expects a valid decimal"
  | repetitionUnclosed => "unclosed counted repetition"
  | repetitionMissing => "repetition operator missing expression"
  | boundaryUnknown => "unrecognized special word boundary assertion"
  | boundaryUnclosed => "special word boundary assertion is unclosed"
  | propertyInvalid => "invalid Unicode character class"
  | propertyUnknown => "Unicode property not found"
  | backreference => "backreferences are not supported"
  | lookAround => "look-around, including look-ahead and look-behind, is not supported"
  | notUnicode => "pattern can match invalid UTF-8"
  | nestedTooDeep => "exceeds the nest limit"
  | tooLarge => "exceeds the size limit"

end GrammarKit.Regex
