/-
Module: GrammarKit.Report
Purpose: A parse with everything that is known about it, and the report that shows it on a terminal.
Main exports: ParseReport, parseVerbose, Sections, ParseReport.render
-/
import GrammarKit.Metagrammar.Reader

namespace GrammarKit

/-! ### Parsing with all details -/

/-- The result of a parse together with what was made of it and what it took. -/
structure ParseReport where
  text : String
  rule : String
  outcome : Except Error Tree
  /-- The generic tree, if the parse succeeded. -/
  generic : Option (Except Error Generic.Branch)
  /-- The tree written back out, if the parse succeeded. -/
  unparsed : Option (Except Error String)
  /-- The rules that a parse could have started with. -/
  rules : List String
  tally : Tally
deriving Inhabited

/-- The generic tree of a run that succeeded. -/
def Parsers.genericOf (p : Parsers) (rule : String) (outcome : Except Error Tree) :
    Option (Except Error Generic.Branch) :=
  outcome.toOption.map (p.toGeneric rule)

/-- The report on a run and the generic tree that was made of it. -/
def Parsers.reportRun (p : Parsers) (rule text : String) (run : Except Error Tree × Tally)
    (generic : Option (Except Error Generic.Branch)) : ParseReport :=
  { text := text
    rule := rule
    outcome := run.1
    generic := generic
    unparsed := run.1.toOption.map (p.unparse rule)
    rules := p.ruleNames
    tally := run.2 }

/-- Parse a text by a rule and make everything of it that can be made. -/
def Parsers.report (p : Parsers) (rule text : String) : ParseReport :=
  let run := p.run rule (Slice.ofText text)
  p.reportRun rule text run (p.genericOf rule run.1)

/-- Compile a grammar source and parse a text with one of its rules. -/
def parseVerbose (source : String) (filename : Option String) (rule text : String)
    (options : CompileOptions) : Except Error ParseReport := do
  let parsers ← compileSource source filename options
  .ok (parsers.report rule text)

/-! ### Showing the result -/

/-- Which sections a report shows besides the outcome. -/
structure Sections where
  generic : Bool := false
  unparsed : Bool := false
  timing : Bool := false
deriving Repr, Inhabited, DecidableEq

/-- Lengths of time in nanoseconds. -/
structure Timing where
  compile : Nat := 0
  parse : Nat := 0
  bridge : Nat := 0
deriving Repr, Inhabited, DecidableEq

/-- Colours and weights of text. -/
inductive Style where
  | bold | dim | red | green | yellow | blue | cyan | gray
deriving Repr, Inhabited, DecidableEq

/-- The control sequence that switches to a style. -/
def Style.start : Style → String
  | bold => "\x1b[1m"
  | dim => "\x1b[2m"
  | red => "\x1b[31m"
  | green => "\x1b[32m"
  | yellow => "\x1b[33m"
  | blue => "\x1b[34m"
  | cyan => "\x1b[36m"
  | gray => "\x1b[90m"

/-- A text in a style, if colours are wanted. -/
def paint (color : Bool) (style : Style) (text : String) : String :=
  if color then style.start ++ text ++ "\x1b[0m" else text

namespace Duration

/-- A fraction in decimal, of a given number of digits, without the zeros at its end. -/
def fraction (digits n : Nat) : String :=
  let text := (toString n).toList
  let padded := List.replicate (digits - text.length) '0' ++ text
  let kept := (padded.reverse.dropWhile (· == '0')).reverse
  if kept.isEmpty then "" else "." ++ String.ofList kept

/-- A length of time in the largest unit of which it has at least one. -/
def display (nanoseconds : Nat) : String :=
  let inUnit := fun (digits size : Nat) (unit : String) =>
    toString (nanoseconds / size) ++ fraction digits (nanoseconds % size) ++ unit
  if nanoseconds ≥ 1000000000 then inUnit 9 1000000000 "s"
  else if nanoseconds ≥ 1000000 then inUnit 6 1000000 "ms"
  else if nanoseconds ≥ 1000 then inUnit 3 1000 "µs"
  else toString nanoseconds ++ "ns"

end Duration

/-- The lines of a text.  A newline ends a line and takes a carriage return before it away; what follows
the last newline is a line only if it is not empty. -/
def linesOf (current : List Char) : List Char → List String
  | [] => if current.isEmpty then [] else [String.ofList current.reverse]
  | '\n' :: cs =>
      let line := match current with
        | '\r' :: earlier => earlier
        | _ => current
      String.ofList line.reverse :: linesOf [] cs
  | c :: cs => linesOf (c :: current) cs

/-- Nodes below this depth are not shown. -/
def maxShownDepth : Nat := 64

/-- Two blanks for each level. -/
def indentation (depth : Nat) : String :=
  String.join (List.replicate depth "  ")

namespace Tree

mutual
/-- A tree with one line for each leaf and node. -/
def outline (color : Bool) (depth : Nat) : Tree → List String
  | leaf s =>
      [indentation depth ++ (if depth > maxShownDepth then paint color .dim "..."
        else paint color .yellow (toString s.start) ++ " " ++ paint color .green (quotedChars s.chars))]
  | elided =>
      [indentation depth ++ paint color .dim (if depth > maxShownDepth then "..." else "(elided)")]
  | node tag extra children =>
      if depth > maxShownDepth then [indentation depth ++ paint color .dim "..."]
      else
        let shown := match extra with
          | some extra => " " ++ extra.display
          | none => ""
        (indentation depth ++ paint color .blue tag ++ paint color .dim shown)
          :: outlineAll color (depth + 1) children

/-- Several trees with one line for each leaf and node. -/
def outlineAll (color : Bool) (depth : Nat) : List Tree → List String
  | [] => []
  | t :: ts => outline color depth t ++ outlineAll color depth ts
end

end Tree

namespace Error

/-- The lines of an error. -/
def outline (color : Bool) (e : Error) : List String :=
  (linesOf [] e.message.toList).map fun line => "  " ++ paint color .red line

/-- What helps with an error: the tree of a part that matched, the rules that there are, or why nothing
else was tried. -/
def advice (color : Bool) (rules : List String) : Error → List String
  | unconsumedInput _ tree =>
      "" :: paint color .yellow "Matched prefix:" :: tree.outline color 1
  | unknownRule _ =>
      "" :: paint color .yellow "Available rules:"
        :: rules.map fun rule => "  • " ++ paint color .cyan rule
  | fatal _ =>
      ["", paint color .dim "  A cutpoint was crossed; earlier alternatives were not retried."]
  | _ => []

end Error

namespace ParseReport

/-- A heading with a blank line before it. -/
def heading (color : Bool) (title : String) : List String :=
  ["", paint color .gray ("━━━ " ++ title ++ " ━━━")]

/-- The tree, or why there is none. -/
def outcomeLines (r : ParseReport) (color : Bool) : List String :=
  match r.outcome with
  | .ok tree => heading color "Tree" ++ tree.outline color 1
  | .error e => heading color "Error" ++ e.outline color ++ e.advice color r.rules

/-- The generic tree. -/
def genericLines (r : ParseReport) (color : Bool) : List String :=
  heading color "Generic tree" ++ match r.generic with
    | some (.ok b) => ["  " ++ b.display]
    | some (.error e) => e.outline color
    | none => [paint color .dim "  No generic tree (the parse failed)"]

/-- The tree written back out. -/
def unparsedLines (r : ParseReport) (color : Bool) : List String :=
  heading color "Unparse" ++ match r.unparsed with
    | some (.ok text) => ["  " ++ paint color .green text]
    | some (.error e) => e.outline color
    | none => [paint color .dim "  Nothing to unparse"]

/-- How long the steps took, and how many attempts. -/
def timingLines (r : ParseReport) (timing : Timing) (color : Bool) : List String :=
  heading color "Timing" ++
    ["  Total: " ++ paint color .green (Duration.display (timing.compile + timing.parse + timing.bridge))
        ++ "  │  Compile: " ++ paint color .cyan (Duration.display timing.compile)
        ++ "  │  Parse: " ++ paint color .cyan (Duration.display timing.parse)
        ++ "  │  Bridge: " ++ paint color .dim (Duration.display timing.bridge),
      "  " ++ paint color .dim "attempts:" ++ " "
        ++ paint color .yellow (toString r.tally.attempts) ++ "  "
        ++ paint color .dim "backtracks:" ++ " "
        ++ paint color .yellow (toString r.tally.backtracks)]

/-- The whole report. -/
def render (r : ParseReport) (sections : Sections) (timing : Timing) (color : Bool) : String :=
  let title := "⚙  Parsing " ++ quoted r.text ++ " as " ++ r.rule
  let lines :=
    ["", paint color .bold (paint color .cyan title)]
      ++ r.outcomeLines color
      ++ (if sections.generic then r.genericLines color else [])
      ++ (if sections.unparsed then r.unparsedLines color else [])
      ++ (if sections.timing then r.timingLines timing color else [])
      ++ [""]
  String.join (lines.map (· ++ "\n"))

end ParseReport
end GrammarKit
