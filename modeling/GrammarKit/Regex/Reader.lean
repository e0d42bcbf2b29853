/-
Module: GrammarKit.Regex.Reader
Purpose: Reading regular expressions.  Flags are resolved while reading, so that the pattern which comes
  out means the same in every place.  What cannot be read, or nests too deep, is refused with the reason.
Main exports: Pattern.read
-/
import GrammarKit.Regex.Class

namespace GrammarKit.Regex

open Unicode (CharSet)

/-! ### Bounds of repetitions -/

/-- The first number that is too large for a bound of a repetition. -/
def boundLimit : Nat := 4294967296

/-- A decimal number, with blanks around it. -/
def readDecimal (flags : Flags) (cs : List Char) : Except PatternError (Nat × List Char) :=
  let cs := cs.dropWhile Unicode.isBlank
  let (digits, rest) := flags.readWhile Char.isDigit cs.length cs
  if digits.isEmpty then .error .repetitionDecimal
  else
    let value := digits.foldl (fun n d => 10 * n + (d.toNat - 48)) 0
    if value < boundLimit then .ok (value, rest.dropWhile Unicode.isBlank) else .error .decimalInvalid

/-- The bounds of a counted repetition after its opening brace. -/
def readBounds (flags : Flags) (cs : List Char) : Except PatternError (Nat × Option Nat × List Char) := do
  let cs := flags.skip cs
  if cs.isEmpty then .error .repetitionUnclosed
  let (min, cs) ← readDecimal flags cs
  let (max, cs) ← match cs with
    | ',' :: cs =>
        match flags.skip cs with
        | [] => .error .repetitionUnclosed
        | '\x7d' :: rest => .ok (none, '\x7d' :: rest)
        | cs => do
            let (max, cs) ← readDecimal flags cs
            .ok (some max, cs)
    | _ => .ok (some min, cs)
  match cs with
  | '\x7d' :: rest =>
      if max.all (min ≤ ·) then .ok (min, max, rest) else .error .repetitionRange
  | _ => .error .repetitionUnclosed

/-! ### Openings of groups -/

/-- The letters of a flag group up to `:` or `)`: the flags they give, and whether one was named. -/
def readFlags (flags : Flags) (value : Bool) (seen : List Char) :
    List Char → Except PatternError (Flags × List Char)
  | [] => .error .flagUnfinished
  | c :: cs =>
      if c = ':' || c = ')' then
        if seen.head? = some '-' then .error .flagDangling
        else if c = ')' && seen.isEmpty then .error .repetitionMissing
        else .ok (flags, c :: cs)
      else if c = '-' then
        if seen.contains '-' then .error .flagNegationRepeated
        else readFlags flags false ('-' :: seen) cs
      else
        match flags.set? value c with
        | none => .error .flagUnknown
        | some flags =>
            if seen.contains c then .error .flagDuplicate else readFlags flags value (c :: seen) cs

/-- Characters of group names; the first one is more restricted. -/
def isNameChar (first : Bool) (c : Char) : Bool :=
  if first then c == '_' || Unicode.isAlphabetic c
  else c == '_' || c == '.' || c == '[' || c == ']' || Unicode.isAlphabetic c
    || (Unicode.Category.ofChar c).isNumber

/-- The name of a group up to the angle bracket that closes it. -/
def readGroupName (names : List (List Char)) (cs : List Char) :
    Except PatternError (List Char × List Char) :=
  let name := cs.takeWhile (· != '>')
  match cs.drop name.length with
  | [] => .error .groupNameUnclosed
  | _ :: rest =>
      match name with
      | [] => .error .groupNameEmpty
      | c :: more =>
          if isNameChar true c && more.all (isNameChar false) then
            if names.contains name then .error .groupNameDuplicate else .ok (name, rest)
          else .error .groupNameInvalid

/-- What is left to read, and what has been fixed so far. -/
structure Cursor where
  rest : List Char
  flags : Flags
  /-- The number of groups opened. -/
  groups : Nat
  /-- The names given to groups. -/
  names : List (List Char)
deriving Repr, Inhabited, DecidableEq

/-- What an opening bracket begins: a change of flags, or a group, with its number if it records. -/
inductive Opening where
  | directive (cursor : Cursor)
  | group (index : Option Nat) (cursor : Cursor)
deriving Repr, Inhabited, DecidableEq

/-- What follows an opening bracket, up to where the inside of the group begins. -/
def readOpening (cursor : Cursor) (cs : List Char) : Except PatternError Opening :=
  let capture := fun (names : List (List Char)) (rest : List Char) =>
    Opening.group (some (cursor.groups + 1))
      { cursor with rest := rest, groups := cursor.groups + 1, names := names }
  let named := fun (cs : List Char) =>
    (readGroupName cursor.names cs).map fun (name, rest) => capture (name :: cursor.names) rest
  match cursor.flags.skip cs with
  | '?' :: '=' :: _ => .error .lookAround
  | '?' :: '!' :: _ => .error .lookAround
  | '?' :: '<' :: '=' :: _ => .error .lookAround
  | '?' :: '<' :: '!' :: _ => .error .lookAround
  | '?' :: 'P' :: '<' :: rest => named rest
  | '?' :: '<' :: rest => named rest
  | '?' :: [] => .error .groupUnclosed
  | '?' :: rest => do
      let (flags, rest) ← readFlags cursor.flags true [] rest
      match rest with
      | ')' :: rest => .ok (.directive { cursor with rest := rest, flags := flags })
      | _ => .ok (.group none { cursor with rest := rest.drop 1, flags := flags })
  | rest => .ok (capture cursor.names rest)

/-! ### Sequences and choices -/

/-- A pattern, and how deep its parts nest as they were written: groups, repetitions, classes, sequences of
several items and choices each nest one deeper than what they hold. -/
structure Part where
  pattern : Pattern
  depth : Nat
deriving Repr, Inhabited, DecidableEq

/-- How deep the parts of a pattern may nest. -/
def depthLimit : Nat := 250

/-- The depth of several parts side by side. -/
def depthOf (depths : List Nat) : Nat :=
  let deepest := depths.foldl max 0
  if depths.length > 1 then deepest + 1 else deepest

/-- The items of a sequence read so far, the last one first; nothing stands for a change of flags. -/
abbrev Items := List (Option Part)

/-- The sequence of some items. -/
def sequenceOf (items : Items) : Part :=
  ⟨.sequence (items.reverse.filterMap (·.map Part.pattern)),
    depthOf (items.map fun item => (item.map Part.depth).getD 0)⟩

/-- The choice between the alternatives read so far, the last one first, and one more. -/
def choiceOf (done : List Part) (last : Part) : Part :=
  let parts := (last :: done).reverse
  ⟨.choice (parts.map Part.pattern), depthOf (parts.map Part.depth)⟩

/-- Put a repetition around the last item. -/
def repeatLast (flags : Flags) (min : Nat) (max : Option Nat) (items : Items) (cs : List Char) :
    Except PatternError (Items × List Char) :=
  match items with
  | some p :: others =>
      let (lazily, rest) := match cs with
        | '?' :: rest => (true, rest)
        | _ => (false, cs)
      let repeated := p.pattern.repeated min max (flags.swapGreed == lazily)
      .ok (some ⟨repeated, p.depth + 1⟩ :: others, rest)
  | _ => .error .repetitionMissing

/-- The set that a dot matches. -/
def dotSet (flags : Flags) : Except PatternError CharSet :=
  flags.complement true <|
    if flags.dotAll then .empty
    else if flags.crlf then .ofRanges [('\n', '\n'), ('\r', '\r')]
    else .ofRanges [('\n', '\n')]

/-- A single item that is neither group, class nor repetition. -/
def readItem (flags : Flags) : List Char → Except PatternError (Pattern × List Char)
  | [] => .ok (.empty, [])
  | '\\' :: cs => do
      let (item, rest) ← readEscape flags cs
      match item with
      | .literal c => .ok (flags.literal c, rest)
      | .set s => .ok (.ofSet s, rest)
      | .assertion a => .ok (.assertion a, rest)
  | '.' :: cs => (dotSet flags).map fun s => (.ofSet s, cs)
  | '^' :: cs => .ok (.assertion (if flags.multiLine then .lineStart flags.crlf else .textStart), cs)
  | '$' :: cs => .ok (.assertion (if flags.multiLine then .lineEnd flags.crlf else .textEnd), cs)
  | c :: cs => .ok (flags.literal c, cs)

/-- The alternatives up to a closing bracket, which is left, or to the end.  `done` holds the alternatives
before the one at hand and `items` what has been read of that one.  Fuel bounds the number of steps, each
of which takes a character. -/
def readAlternatives :
    Nat → List Part → Items → Cursor → Except PatternError (Part × Cursor)
  | 0, _, _, _ => .error .tooLarge
  | fuel + 1, done, items, cursor =>
      let flags := cursor.flags
      let counted := fun (min : Nat) (max : Option Nat) (cs : List Char) => do
        let (items, rest) ← repeatLast flags min max items cs
        readAlternatives fuel done items { cursor with rest := rest }
      match flags.skip cursor.rest with
      | [] => .ok (choiceOf done (sequenceOf items), { cursor with rest := [] })
      | ')' :: cs => .ok (choiceOf done (sequenceOf items), { cursor with rest := ')' :: cs })
      | '|' :: cs => readAlternatives fuel (sequenceOf items :: done) [] { cursor with rest := cs }
      | '(' :: cs => do
          match ← readOpening cursor cs with
          | .directive inside => readAlternatives fuel done (none :: items) inside
          | .group index inside => do
              let (inner, after) ← readAlternatives fuel [] [] inside
              match after.rest with
              | ')' :: rest =>
                  let pattern := match index with
                    | some i => .group i inner.pattern
                    | none => inner.pattern
                  readAlternatives fuel done (some ⟨pattern, inner.depth + 1⟩ :: items)
                    { after with rest := rest, flags := flags }
              | _ => .error .groupUnclosed
      | '[' :: cs => do
          let (part, rest) ← readClass flags cs
          readAlternatives fuel done (some ⟨.ofSet part.set, part.depth⟩ :: items)
            { cursor with rest := rest }
      | '*' :: cs => counted 0 none cs
      | '+' :: cs => counted 1 none cs
      | '?' :: cs => counted 0 (some 1) cs
      | '\x7b' :: cs => do
          if items.head?.join.isNone then .error .repetitionMissing
          let (min, max, rest) ← readBounds flags cs
          counted min max (flags.skip rest)
      | cs => do
          let (item, rest) ← readItem flags cs
          readAlternatives fuel done (some ⟨item, 0⟩ :: items) { cursor with rest := rest }

/-- Read a pattern from its text. -/
def Pattern.read (text : List Char) : Except PatternError Pattern := do
  let (part, after) ← readAlternatives (text.length + 1) [] [] ⟨text, {}, 0, []⟩
  if !after.rest.isEmpty then .error .groupUnopened
  else if part.depth > depthLimit then .error .nestedTooDeep
  else .ok part.pattern

end GrammarKit.Regex
