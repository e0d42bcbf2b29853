/-
Module: GrammarKit.Metagrammar.Reader
Purpose: Reading grammars.  A source is parsed by the grammar of grammars, and the generic tree of the
  parse is read into terms.  Faults in what is written are collected as violations.
Main exports: Grammar.ofTree, Grammar.read, compileSource
-/
import GrammarKit.Metagrammar
import GrammarKit.Parsers

namespace GrammarKit
namespace Metagrammar

open Generic (Node Branch)

/-- Reading collects violations and stops at structural errors. -/
abbrev Reading := StateT (List Violation) (Except Error)

/-- Note a violation at the place of a node. -/
def violate (node : Node) (kind : ViolationKind) (message : String) : Reading Unit :=
  modify (· ++ [{ kind := kind, message := message, position := node.slice?.map Slice.position }])

/-- The branch that a node must be. -/
def branchOf (rule : String) : Node → Reading Branch
  | .branch fields => pure fields
  | node => throw (.structural (.shapeMismatch (.branchOf rule) node.display))

/-- The value of a field that must hold one. -/
def field (b : Branch) (name : String) : Reading Node :=
  match b.one? name with
  | some node => pure node
  | none => throw (.structural (.missingField name))

/-- A single term as it is, and any other number of terms combined. -/
def collapse (combined : List Term → Term) : List Term → Term
  | [t] => t
  | ts => combined ts

/-- The text that a literal stands for. -/
def readLiteral (node : Node) : Reading String :=
  match Spelling.unescape node.chars with
  | .ok text => pure (String.ofList text)
  | .error error => do
      violate node .invalidLiteral ("literal " ++ node.text ++ " " ++ error.message)
      pure node.text

/-- The value of a bound, which may have a plus sign in front. -/
def boundValue? : List Char → Option Nat
  | '+' :: cs => wordValue? cs
  | cs => wordValue? cs

/-- A bound of a repetition; one that is not written is zero. -/
def readBound (b : Branch) (name : String) : Reading Nat :=
  match b.one? name with
  | none => pure 0
  | some node =>
      match boundValue? node.chars with
      | some n => pure n
      | none => do
          violate node .minMaxQuantError ("quant bound " ++ node.text ++ " is out of range")
          pure 0

/-- A repetition written by a single character. -/
def repeatBy (operator : String) (t : Term) : Term :=
  match operator with
  | "?" => t.optional
  | "*" => t.many
  | _ => t.many1

/-- The text of a field, if it is there. -/
def textOf (b : Branch) (name : String) : String :=
  match b.one? name with
  | some node => node.text
  | none => ""

/-- A back reference. -/
def readReference (node : Node) : Reading Term := do
  let b ← branchOf "REF" node
  let default ← match b.one? "default" with
    | some node => do
        let text ← readLiteral node
        pure (some (.literal text))
    | none => pure none
  let name ← field b "IDENT"
  pure (.backref name.text default)

/-- Note that a rule is defined again. -/
def checkNew (g : Grammar) (name : Node) : Reading Unit :=
  if g.contains name.text then
    violate name .duplicatedRule ("rule '" ++ name.text ++ "' is defined more than once")
  else pure ()

/-- The number of the innermost layer of terms. -/
def innermostLayer : Nat := 3

/-- How the terms of a layer are combined. -/
def combineLayer : Nat → List Term → Term
  | 0 => .stack
  | 1 => .choice
  | _ => .seq

mutual
/-- The rules of a branch.  Fuel bounds the depth of the branches. -/
def readGrammar : Nat → Branch → Reading Grammar
  | 0, _ => throw .endless
  | fuel + 1, b => (b.many "stmt").foldlM (readStatement fuel) Table.empty

/-- Add the rule of a statement, if it is one. -/
def readStatement : Nat → Grammar → Node → Reading Grammar
  | 0, _, _ => throw .endless
  | fuel + 1, g, node =>
      match node.branch?.bind (·.one? "prod") with
      | none => pure g
      | some node => do
          let b ← branchOf "prod" node
          let name ← field b "IDENT"
          let terms ← (b.many "term").mapM (readTerm fuel 0)
          checkNew g name
          pure (g.insert name.text (collapse .seq terms))

/-- A term of a given layer. -/
def readTerm : Nat → Nat → Node → Reading Term
  | 0, _, _ => throw .endless
  | fuel + 1, layer, node => do
      let b ← branchOf "term" node
      if layer = innermostLayer then
        let t ← readNamed fuel (← field b "named")
        (b.many "quant").foldlM (readQuant fuel) t
      else
        let terms ← (b.many "term").mapM (readTerm fuel (layer + 1))
        let t := collapse (combineLayer layer) terms
        if layer < 2 then pure t
        else match b.one? grammarRule with
          | some node => do
              let inner ← branchOf "grammar" node
              let rules ← readGrammar fuel inner
              pure (.withRules t rules)
          | none => pure t

/-- An atom, which may be captured under a name. -/
def readNamed : Nat → Node → Reading Term
  | 0, _ => throw .endless
  | fuel + 1, node => do
      let b ← branchOf "named" node
      let t ← readAtom fuel (← field b "atom")
      match b.one? "IDENT" with
      | some name => pure (.capture name.text t)
      | none => pure t

/-- An atom. -/
def readAtom : Nat → Node → Reading Term
  | 0, _ => throw .endless
  | fuel + 1, node => do
      let b ← branchOf "atom" node
      match b.choice? with
      | some 0 => do pure (.rule (← field b "IDENT").text)
      | some 1 => do
          let text ← readLiteral (← field b "STR")
          pure (.literal text)
      | some 2 => do pure (.regex (String.ofList (Spelling.regexBody (← field b "RE").chars)))
      | some 3 => do readReference (← field b "REF")
      | some 4 => do readTerm fuel 0 (← field b "term")
      | _ => pure (.seq [])

/-- A term with the repetition or list that is written behind it. -/
def readQuant : Nat → Term → Node → Reading Term
  | 0, _, _ => throw .endless
  | fuel + 1, t, node => do
      let b ← branchOf "quant" node
      let operator := textOf b "op"
      match b.choice? with
      | some 0 => pure (repeatBy operator t)
      | some 1 => do
          let min ← readBound b "min"
          let max ← readBound b "max"
          pure (.quant t min max)
      | _ => do
          let separator ← readNamed fuel (← field b "named")
          match Assoc.ofOperator? operator with
          | some assoc =>
              pure (.list t separator
                ⟨assoc, (b.one? "opt_leading").isSome, (b.one? "opt_trailing").isSome⟩)
          | none => throw (.structural (.shapeMismatch .listOperator operator))
end

end Metagrammar

/-- The parsers of the grammar of grammars. -/
def metaparsers : Except Error Parsers :=
  metagrammar.compile {}

namespace Grammar

/-- The grammar that a tree of the grammar of grammars stands for. -/
def ofTree (tree : Tree) : Except Error Grammar := do
  let root ← metagrammar.toGeneric grammarRule tree
  let (g, violations) ← (Metagrammar.readGrammar (2 * Generic.Branch.depth root + 2) root).run []
  if violations.isEmpty then .ok g else .error (.grammar violations)

/-- Read a grammar from its source. -/
def read (input : Slice) : Except Error Grammar := do
  let parsers ← metaparsers
  let tree ← parsers.parse grammarRule input
  ofTree tree

end Grammar

/-- The slice of a grammar source. -/
def sourceSlice (text : String) (filename : Option String) : Slice :=
  Source.whole ⟨0, text, filename⟩

/-- Read a grammar from its source and compile it. -/
def compileSource (text : String) (filename : Option String) (options : CompileOptions) :
    Except Error Parsers := do
  let g ← Grammar.read (sourceSlice text filename)
  g.compile options

end GrammarKit
