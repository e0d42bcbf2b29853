/-
Module: GrammarKit.Proofs.Verdict
Purpose: What a program decides, without the means by which it does so.  A judge says whether a term matches,
  fails so that other alternatives are tried, or fails for good behind a cutpoint.  It knows of the names only
  the texts that they are bound to, and neither counts nor gives numbers to generations.
Main exports: Verdict, Judge, Operator.judge, Program.judge
-/
import GrammarKit.Parse.Run

namespace GrammarKit

/-- How an attempt ends, whatever it counts and whichever generations it opens. -/
inductive Verdict (α : Type) where
  | matched (value : α)
  /-- Other alternatives may be tried. -/
  | failed
  /-- A cutpoint has been crossed inside, and no other alternative is tried. -/
  | fatal
  | exhausted
deriving Inhabited

/-- Go on after a match, or otherwise after a failure that leaves a choice. -/
def Verdict.andThen {α β : Type} (v : Verdict α) (next : α → Verdict β) (otherwise : Verdict β) : Verdict β :=
  match v with
  | matched value => next value
  | failed => otherwise
  | fatal => fatal
  | exhausted => exhausted

/-- What comes of a match after a match, or of one in its place. -/
theorem Verdict.andThen_eq_matched {α β : Type} {v : Verdict α} {next : α → Verdict β} {otherwise : Verdict β}
    {result : β} (h : v.andThen next otherwise = .matched result) :
    (∃ value, v = .matched value ∧ next value = .matched result) ∨ (v = .failed ∧ otherwise = .matched result) := by
  cases v with
  | matched value => exact .inl ⟨value, rfl, h⟩
  | failed => exact .inr ⟨rfl, h⟩
  | fatal => cases h
  | exhausted => cases h

/-- The texts that names are bound to. -/
abbrev Texts := String → Option (List Char)

/-- Bind a name to a text. -/
def Texts.bind (b : Texts) (name : String) (chars : List Char) : Texts :=
  fun other => if name = other then some chars else b other

/-- The texts of the trees that names are bound to. -/
def Context.texts (c : Context) : Texts :=
  fun name => (c.find? name).map Tree.chars

theorem Context.texts_bind (c : Context) (name : String) (tree : Tree) :
    (c.bind name tree).texts = c.texts.bind name tree.chars := by
  funext other
  simp only [texts, Texts.bind, bind, find?, Table.lookup]
  split <;> rfl

/-- A judge of texts at the start of a slice. -/
abbrev Judge := Texts → Slice → Verdict (Tree × Slice)

namespace Judge

/-- A judge of terminals. -/
def terminal (regex : Regex) : Judge := fun _ s =>
  match regex.match? s with
  | some m => .matched (.leaf m.output, m.rest)
  | none => .failed

/-- An item of a sequence. -/
structure Step where
  bind : Option String
  cut : Bool
  run : Judge

/-- The texts after an item. -/
def Step.after (step : Step) (b : Texts) (tree : Tree) : Texts :=
  match step.bind with
  | some name => b.bind name tree.chars
  | none => b

/-- All items one after the other.  Once a cutpoint is crossed, failures are fatal. -/
def sequenceFrom : List Step → Bool → Texts → Slice → Verdict (List Tree × Slice)
  | [], _, _, s => .matched ([], s)
  | step :: steps, crossed, b, s =>
      (step.run b s).andThen
        (fun first => (sequenceFrom steps (crossed || step.cut) (step.after b first.1) first.2).andThen
          (fun others => .matched (first.1 :: others.1, others.2)) .failed)
        (if crossed then .fatal else .failed)

/-- A sequence. -/
def sequence (label : Option String) (steps : List Step) : Judge := fun b s =>
  (sequenceFrom steps false b s).andThen
    (fun found => .matched (.node (label.getD Tree.seqTag) none found.1, found.2)) .failed

/-- The alternatives from number `index` on. -/
def choiceFrom (tag : String) (b : Texts) (s : Slice) : List Judge → Nat → Verdict (Tree × Slice)
  | [], _ => .failed
  | run :: alternatives, index =>
      (run b s).andThen (fun found => .matched (.node tag (some (.choice index)) [found.1], found.2))
        (choiceFrom tag b s alternatives (index + 1))

/-- The first alternative that matches. -/
def choice (label : Option String) (alternatives : List Judge) : Judge := fun b s =>
  choiceFrom (label.getD Tree.choiceTag) b s alternatives 0

/-- A repetition that has some trees already. -/
def repeatFrom (run : Judge) (b : Texts) (min max : Nat) :
    Nat → Array Tree → Slice → Verdict (List Tree × Slice)
  | 0, _, _ => .exhausted
  | fuel + 1, trees, s =>
      if max ≠ 0 ∧ max ≤ trees.size then .matched (trees.toList, s)
      else
        (run b s).andThen
          (fun found =>
            if found.2.start = s.start then
              .matched ((Recognizer.padRepetitions min trees found.1).toList, found.2)
            else repeatFrom run b min max fuel (trees.push found.1) found.2)
          (.matched (trees.toList, s))

/-- A repetition. -/
def repetition (label : Option String) (run : Judge) (min max : Nat) : Judge := fun b s =>
  (repeatFrom run b min max (s.chars.length + 2) #[] s).andThen
    (fun found =>
      if min ≤ found.1.length then .matched (.node (label.getD Tree.quantTag) none found.1, found.2)
      else .failed)
    .failed

/-- The parts of a list. -/
structure ListParts where
  element : Judge
  separator : Judge
  style : ListStyle
  cutSeparator : Bool

/-- A separator and the element after it, if there is a further pair. -/
def pair (parts : ListParts) (b : Texts) (mayElide : Bool) (s : Slice) : Verdict (Option Recognizer.Pair) :=
  (parts.separator b s).andThen
    (fun separator => (parts.element b separator.2).andThen
      (fun element => .matched (some ⟨separator.1, some element.1, element.2⟩))
      (if mayElide then .matched (some ⟨separator.1, none, separator.2⟩)
        else if parts.cutSeparator then .fatal else .matched none))
    (.matched none)

/-- The slots of a list that begins with a pair. -/
def leadingSlots : Option Recognizer.Pair → Verdict (List Tree × Slice)
  | some ⟨separator, some element, rest⟩ => .matched ([.elided, separator, element], rest)
  | _ => .failed

/-- The first slots of a list. -/
def listHead (parts : ListParts) (b : Texts) (s : Slice) : Verdict (List Tree × Slice) :=
  (parts.element b s).andThen (fun found => .matched ([found.1], found.2))
    (if parts.style.leading then (pair parts b false s).andThen leadingSlots .failed else .failed)

/-- The further slots of a list. -/
def listTail (parts : ListParts) (b : Texts) : Nat → Array Tree → Slice → Verdict (List Tree × Slice)
  | 0, _, _ => .exhausted
  | fuel + 1, slots, s =>
      (pair parts b parts.style.trailing s).andThen
        (fun
          | none => .matched (slots.toList, s)
          | some found =>
              let slots := (slots.push found.separator).push (found.element.getD .elided)
              if found.element.isNone || found.rest.start == s.start then .matched (slots.toList, found.rest)
              else listTail parts b fuel slots found.rest)
        .failed

/-- A list. -/
def list (label : Option String) (parts : ListParts) : Judge := fun b s =>
  (listHead parts b s).andThen
    (fun head => (listTail parts b (s.chars.length + 2) head.1.toArray head.2).andThen
      (fun found => .matched (.ofSlots (label.getD Tree.listTag) parts.style.assoc found.1, found.2)) .failed)
    .failed

/-- A back reference. -/
def backref (name : String) (default : Option Judge) : Judge := fun b s =>
  match b name with
  | some chars =>
      match s.splitLiteral? chars with
      | some (found, rest) => .matched (.leaf found, rest)
      | none => .failed
  | none =>
      match default with
      | some run =>
          (run b s).andThen (fun found => .matched (.leaf (Recognizer.consumed s found.2), found.2)) .failed
      | none => .failed

end Judge

/-- What an operator decides, given what the parsers decide that it refers to. -/
def Operator.judge (self : ParserId → Judge) (label : Option String) : Operator → Judge
  | .pending _ => fun _ _ => .failed
  | .terminal t => Judge.terminal t.regex
  | .call target => self target
  | .cut inner => self inner
  | .seq items => Judge.sequence label (items.map fun item => ⟨item.bind, item.cut, self item.parser⟩)
  | .choice alternatives => Judge.choice label (alternatives.map self)
  | .list element separator style cutSeparator =>
      Judge.list label ⟨self element, self separator, style, cutSeparator⟩
  | .quant term min max => Judge.repetition label (self term) min max
  | .backref name default => Judge.backref name (default.map self)

/-- What the parser with a given index decides, in a recursion of at most the given depth. -/
def Program.judge (p : Program) : Nat → ParserId → Judge
  | 0, _ => fun _ _ => .exhausted
  | fuel + 1, id => fun b s =>
      match p.parsers[id]? with
      | none => .exhausted
      | some parser => parser.operator.judge (p.judge fuel) parser.label b s

end GrammarKit
