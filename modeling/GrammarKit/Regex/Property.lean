/-
Module: GrammarKit.Regex.Property
Purpose: The properties of characters that a pattern can name, alone or with a value: general categories,
  scripts, ages, classes for splitting text, and properties that a character has or has not.  Names are
  compared without regard to case, blanks, hyphens, underscores and a prefix `is`.
Main exports: normalName, namedSet?, propertySet?
-/
import GrammarKit.Unicode.Age
import GrammarKit.Unicode.Script
import GrammarKit.Unicode.Property
import GrammarKit.Unicode.Segment

namespace GrammarKit.Regex

open Unicode (CharSet)

/-- A name without its first two letters, if these are `is`. -/
def dropIs : List Char → Option (List Char)
  | a :: b :: rest => if a.toLower = 'i' && b.toLower = 's' then some rest else none
  | _ => none

/-- A name in the form in which names are compared: the small letters of the basic set and other
characters of it, but no blanks, hyphens and underscores.  The name `isc` has no prefix. -/
def normalName (name : List Char) : String :=
  let kept := fun (cs : List Char) =>
    (cs.filter fun c => c.toNat < 0x80 && c ∉ [' ', '-', '_']).map Char.toLower
  match dropIs name with
  | some rest => if kept rest = ['c'] then "isc" else .ofList (kept rest)
  | none => .ofList (kept name)

/-- The general categories that a name stands for. -/
def categoriesOfName (name : String) : Option (List Unicode.Category) :=
  match name with
  | "l" | "letter" => some [.Lu, .Ll, .Lt, .Lm, .Lo]
  | "lc" | "casedletter" => some [.Lu, .Ll, .Lt]
  | "lu" | "uppercaseletter" => some [.Lu]
  | "ll" | "lowercaseletter" => some [.Ll]
  | "lt" | "titlecaseletter" => some [.Lt]
  | "lm" | "modifierletter" => some [.Lm]
  | "lo" | "otherletter" => some [.Lo]
  | "m" | "mark" | "combiningmark" => some [.Mn, .Mc, .Me]
  | "mn" | "nonspacingmark" => some [.Mn]
  | "mc" | "spacingmark" => some [.Mc]
  | "me" | "enclosingmark" => some [.Me]
  | "n" | "number" => some [.Nd, .Nl, .No]
  | "nd" | "decimalnumber" | "digit" => some [.Nd]
  | "nl" | "letternumber" => some [.Nl]
  | "no" | "othernumber" => some [.No]
  | "p" | "punctuation" | "punct" => some [.Pc, .Pd, .Ps, .Pe, .Pi, .Pf, .Po]
  | "pc" | "connectorpunctuation" => some [.Pc]
  | "pd" | "dashpunctuation" => some [.Pd]
  | "ps" | "openpunctuation" => some [.Ps]
  | "pe" | "closepunctuation" => some [.Pe]
  | "pi" | "initialpunctuation" => some [.Pi]
  | "pf" | "finalpunctuation" => some [.Pf]
  | "po" | "otherpunctuation" => some [.Po]
  | "s" | "symbol" => some [.Sm, .Sc, .Sk, .So]
  | "sm" | "mathsymbol" => some [.Sm]
  | "sc" | "currencysymbol" => some [.Sc]
  | "sk" | "modifiersymbol" => some [.Sk]
  | "so" | "othersymbol" => some [.So]
  | "z" | "separator" => some [.Zs, .Zl, .Zp]
  | "zs" | "spaceseparator" => some [.Zs]
  | "zl" | "lineseparator" => some [.Zl]
  | "zp" | "paragraphseparator" => some [.Zp]
  | "c" | "other" => some [.Cc, .Cf, .Cs, .Co, .Cn]
  | "cc" | "control" | "cntrl" => some [.Cc]
  | "cf" | "format" => some [.Cf]
  | "co" | "privateuse" => some [.Co]
  | "cn" | "unassigned" => some [.Cn]
  | _ => none

/-- The characters of a general category, or of one of the sets that count as such. -/
def categorySet? (name : String) : Option CharSet :=
  match name with
  | "any" => some .full
  | "ascii" => some (.range 0 0x7f)
  | "assigned" => some (Unicode.ofCategories [.Cn]).compl
  | _ => (categoriesOfName name).map Unicode.ofCategories

/-- The characters assigned by a version, which is named by its number, or by `v` and its digits. -/
def ageSet? (name : String) : Option CharSet :=
  (Unicode.versions.find? fun version =>
    name = version || name.toList = 'v' :: version.toList.filter (· != '.')).bind Unicode.assignedBy?

/-- The characters that a name alone stands for: a property, a general category or a script. -/
def namedSet? (name : List Char) : Option CharSet :=
  let name := normalName name
  Unicode.ofProperty? name <|> categorySet? name <|> Unicode.ofScript? name

/-- The characters for which a property has a value. -/
def valueSet? (property value : List Char) : Option CharSet :=
  let value := normalName value
  match normalName property with
  | "gc" | "generalcategory" => categorySet? value
  | "sc" | "script" => Unicode.ofScript? value
  | "scx" | "scriptextensions" => Unicode.ofScriptExtended? value
  | "age" => ageSet? value
  | "gcb" | "graphemeclusterbreak" => Unicode.ofGraphemeBreak? value
  | "wb" | "wordbreak" => Unicode.ofWordBreak? value
  | "sb" | "sentencebreak" => Unicode.ofSentenceBreak? value
  | _ => none

/-- Cut a list in front of the first place where `isCut` holds of what follows. -/
def cutAt? (isCut : List Char → Bool) : List Char → Option (List Char × List Char)
  | [] => none
  | c :: cs =>
      if isCut (c :: cs) then some ([], c :: cs)
      else (cutAt? isCut cs).map fun (before, after) => (c :: before, after)

/-- The characters that the text between braces stands for, and whether their complement is meant: a name,
or a property and its value with `!=`, `:` or `=` between them, looked for in this order. -/
def propertySet? (text : List Char) : Option (CharSet × Bool) :=
  match cutAt? (fun cs => ['!', '='].isPrefixOf cs) text with
  | some (property, value) => (valueSet? property (value.drop 2)).map (·, true)
  | none =>
      match cutAt? (·.head? = some ':') text <|> cutAt? (·.head? = some '=') text with
      | some (property, value) => (valueSet? property (value.drop 1)).map (·, false)
      | none => (namedSet? text).map (·, false)

end GrammarKit.Regex
