/-
Module: GrammarKit.Program.Compile
Purpose: From grammars to programs.  First every rule gets a slot, then bodies are made and the slots are
  set to call them.  Local rules get slots when the term they belong to is reached; their names then hide
  those of the rules around it.
Main exports: Program.ofGrammar
-/
import GrammarKit.Program.Padding

namespace GrammarKit
namespace Term

mutual
/-- The names that back references in a term refer to. -/
def backrefNames : Term → List String
  | rule _ => []
  | literal _ => []
  | regex _ => []
  | seq ts => backrefNamesAll ts
  | choice ts => backrefNamesAll ts
  | stack ts => backrefNamesAll ts
  | list element separator _ => backrefNames element ++ backrefNames separator
  | quant t _ _ => backrefNames t
  | capture _ t => backrefNames t
  | backref name default => name :: backrefNamesDefault default
  | cut t => backrefNames t
  | withRules t rules => backrefNames t ++ backrefNamesTable rules

/-- The names that back references in several terms refer to. -/
def backrefNamesAll : List Term → List String
  | [] => []
  | t :: ts => backrefNames t ++ backrefNamesAll ts

/-- The names that back references in a default refer to. -/
def backrefNamesDefault : Option Term → List String
  | none => []
  | some t => backrefNames t

/-- The names that back references in the rules of a table refer to. -/
def backrefNamesTable : Table Term → List String
  | ⟨entries⟩ => backrefNamesEntries entries

/-- The names that back references in some entries refer to. -/
def backrefNamesEntries : List (String × Term) → List String
  | [] => []
  | (_, t) :: entries => backrefNames t ++ backrefNamesEntries entries
end

end Term

namespace Program

/-- A program in the making. -/
structure Draft where
  parsers : Array Parser
  slots : List (ParserId × String)
deriving Inhabited, DecidableEq

/-- The slots of the rules that can be seen, the innermost first. -/
abbrev Names := List (String × ParserId)

/-- What stays the same while the term of one scope is compiled. -/
structure Surroundings where
  /-- The names that some back reference refers to; others need not be bound. -/
  backrefs : List String
  names : Names
  padding : Option Padding
deriving Inhabited, DecidableEq

namespace Draft

/-- Add a parser. -/
def push (d : Draft) (label : Option String) (operator : Operator) : ParserId × Draft :=
  (d.parsers.size, { d with parsers := d.parsers.push ⟨label, operator⟩ })

/-- Give each rule a slot; the slots made last come first among the names. -/
def register (d : Draft) (names : Names) : List (String × Term) → Names × Draft
  | [] => (names, d)
  | (name, _) :: entries =>
      if name = paddingRule then register d names entries
      else
        let (slot, d) := d.push none (.pending name)
        register { d with slots := d.slots ++ [(slot, name)] } ((name, slot) :: names) entries

/-- Let the slot of a rule call its body. -/
def patch (d : Draft) (slot body : ParserId) : Draft :=
  { d with parsers := d.parsers.modify slot fun p => { p with operator := .call body } }

end Draft

/-- The name to which a sequence binds an item, if some back reference needs it. -/
def bindName (s : Surroundings) (t : Term) : Option String :=
  t.bindingName?.filter s.backrefs.contains

mutual
/-- Make the parser of a term.  The label goes to the parser that makes the tree of the term. -/
def build (s : Surroundings) (d : Draft) (label : Option String) : Term → Except Error (ParserId × Draft)
  | .capture name t => build s d (some name) t
  | .withRules t rules => do
      let padding ← Padding.ofGrammar rules s.padding
      let (names, d) := d.register s.names rules.entries
      let s := { s with names := names, padding := padding }
      let d ← buildTable s d rules
      build s d label t
  | .cut t => do
      let (inner, d) ← build s d label t
      .ok (d.push label (.cut inner))
  | .rule name =>
      match Table.lookup name s.names with
      | some slot => .ok (d.push label (.call slot))
      | none => .error (.unknownRule name)
  | .literal text => do
      let terminal ← terminal (.literal text) s.padding
      .ok (d.push label (.terminal terminal))
  | .regex pattern => do
      let terminal ← terminal (.regex pattern) s.padding
      .ok (d.push label (.terminal terminal))
  | .seq ts => do
      let (items, d) ← buildItems s d ts
      .ok (d.push label (.seq items))
  | .choice ts => do
      let (alternatives, d) ← buildAll s d ts
      .ok (d.push label (.choice alternatives))
  | .list element separator style => do
      let (elementId, d) ← build s d none element
      let (separatorId, d) ← build s d none separator
      .ok (d.push label (.list elementId separatorId style separator.isCut))
  | .quant t min max => do
      let (inner, d) ← build s d none t
      .ok (d.push label (.quant inner min max))
  | .backref name default => do
      let (default, d) ← buildDefault { s with padding := none } d default
      .ok (d.push label (.backref name default))
  | .stack _ => .error (.structural .misplacedStack)

/-- Make the items of a sequence. -/
def buildItems (s : Surroundings) (d : Draft) : List Term → Except Error (List Item × Draft)
  | [] => .ok ([], d)
  | t :: ts => do
      let (id, d) ← build s d none t
      let (items, d) ← buildItems s d ts
      .ok (⟨id, bindName s t, t.isCut⟩ :: items, d)

/-- Make the parsers of several terms. -/
def buildAll (s : Surroundings) (d : Draft) : List Term → Except Error (List ParserId × Draft)
  | [] => .ok ([], d)
  | t :: ts => do
      let (id, d) ← build s d none t
      let (ids, d) ← buildAll s d ts
      .ok (id :: ids, d)

/-- Make the parser of a default. -/
def buildDefault (s : Surroundings) (d : Draft) : Option Term → Except Error (Option ParserId × Draft)
  | none => .ok (none, d)
  | some t => do
      let (id, d) ← build s d none t
      .ok (some id, d)

/-- Make the bodies of the rules of a table. -/
def buildTable (s : Surroundings) (d : Draft) : Table Term → Except Error Draft
  | ⟨entries⟩ => buildEntries s d entries

/-- Make the bodies of rules that have slots already. -/
def buildEntries (s : Surroundings) (d : Draft) : List (String × Term) → Except Error Draft
  | [] => .ok d
  | (name, t) :: entries =>
      if name = paddingRule then buildEntries s d entries
      else do
        let (body, d) ← build s d (some name) t
        let d := match Table.lookup name s.names with
          | some slot => d.patch slot body
          | none => d
        buildEntries s d entries
end

/-- Whether the slot of a rule has been left without a body. -/
def Draft.isPending (d : Draft) (slot : ParserId) : Bool :=
  match d.parsers[slot]? with
  | some ⟨_, .pending _⟩ => true
  | _ => false

/-- The program of a grammar without stacks. -/
def ofGrammar (g : Grammar) : Except Error Program := do
  let padding ← Padding.ofGrammar g none
  let (names, d) := Draft.register ⟨#[], []⟩ [] g.entries
  let s := ⟨Term.backrefNamesTable g, names, padding⟩
  let d ← buildTable s d g
  match d.slots.find? fun (slot, _) => d.isPending slot with
  | some (_, name) => .error (.unknownRule name)
  | none =>
      let rules := g.entries.filterMap fun (name, _) => (Table.lookup name names).map (name, ·)
      .ok ⟨d.parsers, ⟨rules⟩, d.slots⟩

end Program
end GrammarKit
