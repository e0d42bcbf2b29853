/-
Module: GrammarKit.CommandLine
Purpose: The command line: what the arguments mean, and what is written for them.  Files and the standard
  input are given as values, so that the whole program is a function.
Main exports: Config, Request, readArguments, respond
-/
import GrammarKit.CommandLine.Directory
import GrammarKit.Report

namespace GrammarKit.CommandLine

/-- What is to be done: which grammar file, rule and input, and how the result is shown. -/
structure Config where
  grammarFile : String
  rule : String
  /-- The input, unless it is to be read from the standard input. -/
  input : Option String
  sections : Sections
  autoCutpoints : Bool
  color : Bool
deriving Repr, Inhabited, DecidableEq

/-- What the arguments ask for. -/
inductive Request where
  | help
  | version
  | parse (config : Config)
deriving Repr, Inhabited, DecidableEq

/-- What is wrong with the arguments. -/
inductive UsageError where
  | inputWithoutValue
  | inputTwice
  | unknownOption (argument : String)
  | tooFewArguments
deriving Repr, Inhabited, DecidableEq

/-- The name and the version of the program. -/
def versionText : String := "parsnip 0.1.0"

/-- The help. -/
def helpText : String :=
  versionText ++ "

Compile a grammar and parse input with one of its rules.

Usage:
  parsnip [OPTIONS] <grammar-file> <rule> [--] <input...>
  parsnip [OPTIONS] <grammar-file> <rule> --input <text>
  parsnip [OPTIONS] <grammar-file> <rule> < input.txt

Options:
  -i, --input <text>         Input text to parse. If omitted, reads remaining args
                             or stdin when no args are provided.
  --ast                      Print the generic tree.
  --unparse                  Print the tree written back out as text.
  --timing                   Print compile/parse/bridge timings and counters.
  --auto-cutpoints           Insert cutpoints around literals used only once.
  --color                    Force ANSI color output.
  --no-color                 Disable ANSI color output.
  -h, --help                 Show this help message.
  -V, --version              Print version information.

Environment:
  RUST_LOG                   Log filter, e.g. RUST_LOG=parsnip=trace.

Exit codes:
  0  Success.
  1  The grammar did not compile or the input did not parse.
  2  Invalid arguments or unreadable grammar file.
"

/-- The complaint in words. -/
def UsageError.message : UsageError → String
  | inputWithoutValue => "error: --input expects a value"
  | inputTwice => "error: input provided multiple times"
  | unknownOption argument => "error: unknown option '" ++ argument ++ "'"
  | tooFewArguments => "error: expected a grammar file and a rule name\n\n" ++ helpText

/-- What has been read of the arguments: the positional ones last first, the input, and the flags. -/
structure Options where
  positional : List String := []
  input : Option String := none
  sections : Sections := {}
  autoCutpoints : Bool := false
  color : Bool := false
deriving Repr, Inhabited, DecidableEq

/-- Set the input, which may be done once. -/
def Options.setInput (o : Options) (value : String) : Except UsageError Options :=
  if o.input.isSome then .error .inputTwice else .ok { o with input := some value }

/-- Drop a text from the start of another as often as it stands there.  Fuel bounds the number of
characters. -/
def dropRepeated (head : List Char) : Nat → List Char → List Char
  | 0, cs => cs
  | fuel + 1, cs =>
      if head.isPrefixOf cs then dropRepeated head fuel (cs.drop head.length) else cs

/-- The option that gives the input in the same argument. -/
def inlineInput : List Char := "--input=".toList

/-- The value of an argument that gives the input. -/
def inlineValue? (argument : String) : Option String :=
  let cs := argument.toList
  if inlineInput.isPrefixOf cs then
    some (String.ofList (dropRepeated inlineInput cs.length cs))
  else none

/-- Whether an argument that has no meaning as an option looks like one. -/
def looksLikeOption (argument : String) : Bool :=
  match argument.toList with
  | '-' :: _ :: _ => true
  | _ => false

/-- How reading the arguments ends early: with help or version, which make all else irrelevant, or with an
error. -/
inductive Stop where
  | request (request : Request)
  | error (error : UsageError)
deriving Repr, Inhabited, DecidableEq

/-- Set the input, or stop. -/
def Options.setInputOrStop (o : Options) (value : String) : Except Stop Options :=
  (o.setInput value).mapError .error

/-- Read the arguments from left to right. -/
def readOptions (o : Options) : List String → Except Stop Options
  | [] => .ok o
  | argument :: rest =>
      match argument with
      | "-h" | "--help" => .error (.request .help)
      | "-V" | "--version" => .error (.request .version)
      | "--ast" => readOptions { o with sections := { o.sections with generic := true } } rest
      | "--unparse" => readOptions { o with sections := { o.sections with unparsed := true } } rest
      | "--timing" => readOptions { o with sections := { o.sections with timing := true } } rest
      | "--auto-cutpoints" => readOptions { o with autoCutpoints := true } rest
      | "--color" => readOptions { o with color := true } rest
      | "--no-color" => readOptions { o with color := false } rest
      | "--" => .ok { o with positional := rest.reverse ++ o.positional }
      | "--input" | "-i" =>
          match rest with
          | [] => .error (.error .inputWithoutValue)
          | value :: rest => do
              let o ← o.setInputOrStop value
              readOptions o rest
      | _ =>
          match inlineValue? argument with
          | some value => do
              let o ← o.setInputOrStop value
              readOptions o rest
          | none =>
              if looksLikeOption argument then .error (.error (.unknownOption argument))
              else readOptions { o with positional := argument :: o.positional } rest

/-- The configuration that the options amount to. -/
def Options.config (o : Options) : Except UsageError Config :=
  match o.positional.reverse with
  | grammarFile :: rule :: words => do
      let o ← if words.isEmpty then .ok o else o.setInput (String.intercalate " " words)
      .ok ⟨grammarFile, rule, o.input, o.sections, o.autoCutpoints, o.color⟩
  | _ => .error .tooFewArguments

/-- What the arguments ask for; `color` says whether the output shows colours unless told otherwise. -/
def readArguments (color : Bool) (arguments : List String) : Except UsageError Request :=
  match readOptions { color := color } arguments with
  | .error (.request request) => .ok request
  | .error (.error error) => .error error
  | .ok options => options.config.map .parse

/-! ### The answer -/

/-- What the program leaves: its exit code and what it has written. -/
structure Response where
  code : Nat
  stdout : String := ""
  stderr : String := ""
deriving Repr, Inhabited, DecidableEq

/-- The response to arguments that make no sense. -/
def Response.ofUsageError (e : UsageError) : Response :=
  { code := 2, stderr := e.message ++ "\n" }

/-- The response if the grammar file cannot be read. -/
def Response.ofReadError (file : String) (e : ReadError) : Response :=
  { code := 2, stderr := "error: failed to read grammar '" ++ file ++ "': " ++ e.message ++ "\n" }

/-- The response if the grammar does not compile. -/
def Response.ofCompileError (file : String) (e : Error) : Response :=
  { code := 1, stderr := "error: grammar '" ++ file ++ "' did not compile\n" ++ e.message ++ "\n" }

/-- The response to a parse. -/
def Response.ofReport (config : Config) (timing : Timing) (r : ParseReport) : Response :=
  { code := if r.outcome.isOk then 0 else 1
    stdout := r.render config.sections timing config.color }

/-- The options with which a grammar is compiled. -/
def Config.compileOptions (config : Config) : CompileOptions :=
  { autoCutpoints := config.autoCutpoints }

/-- Parse as configured, given the source of the grammar and the input. -/
def parseResponse (config : Config) (timing : Timing) (source input : String) : Response :=
  match parseVerbose source (some config.grammarFile) config.rule input config.compileOptions with
  | .error e => .ofCompileError config.grammarFile e
  | .ok report => .ofReport config timing report

/-- Answer the arguments, given the files, the standard input and how long the steps are said to take.  An
input that is not among the arguments is read first, which leaves nothing of the standard input. -/
def respond (files : List (String × String)) (stdin : String) (timing : Timing) (color : Bool)
    (arguments : List String) : Response :=
  match readArguments color arguments with
  | .error e => .ofUsageError e
  | .ok .help => { code := 0, stdout := helpText ++ "\n" }
  | .ok .version => { code := 0, stdout := versionText ++ "\n" }
  | .ok (.parse config) =>
      let directory : Directory := ⟨files, if config.input.isSome then stdin else ""⟩
      match directory.read config.grammarFile with
      | .error e => .ofReadError config.grammarFile e
      | .ok source => parseResponse config timing source (config.input.getD stdin)

end GrammarKit.CommandLine
