/-
Module: GrammarKit.Main
Purpose: The program: read the arguments, the grammar file and the standard input, let the library do the
  work, and write what comes out.
Main exports: main
-/
import GrammarKit.CommandLine

open GrammarKit
open GrammarKit.CommandLine

/-- Write a response and give its exit code. -/
def writeResponse (r : Response) : IO UInt32 := do
  (← IO.getStdout).putStr r.stdout
  (← IO.getStderr).putStr r.stderr
  pure r.code.toUInt32

/-- Evaluate a value and measure how long that takes, in nanoseconds. -/
def timed {α : Type} (value : Unit → α) : IO (α × Nat) := do
  let start ← IO.monoNanosNow
  let result ← IO.lazyPure value
  let stop ← IO.monoNanosNow
  pure (result, stop - start)

/-- Read all of the standard input. -/
def readInput : IO String := do
  (← IO.getStdin).readToEnd

/-- Read the grammar file, or say why it cannot be read. -/
def readGrammarFile (path : String) : IO (Except ReadError String) := do
  try
    pure (.ok (← IO.FS.readFile path))
  catch
    | .noFileOrDirectory _ _ _ => pure (.error .notFound)
    | .inappropriateType none _ _ => pure (.error .isADirectory)
    | .inappropriateType (some _) _ _ => pure (.error .notADirectory)
    | .invalidArgument (some _) _ _ => pure (.error .nameTooLong)
    | error => pure (.error (.other (toString error)))

/-- Compile the source, parse the input and measure each step. -/
def parseTimed (config : Config) (source input : String) : IO Response := do
  let (compiled, compile) ←
    timed fun _ => compileSource source (some config.grammarFile) config.compileOptions
  match compiled with
  | .error e => pure (.ofCompileError config.grammarFile e)
  | .ok parsers => do
      let (run, parse) ← timed fun _ => parsers.run config.rule (Slice.ofText input)
      let (generic, bridge) ← timed fun _ => parsers.genericOf config.rule run.1
      pure (.ofReport config ⟨compile, parse, bridge⟩ (parsers.reportRun config.rule input run generic))

/-- Do what the arguments ask for. -/
def main (arguments : List String) : IO UInt32 := do
  let color ← (← IO.getStdout).isTty
  match readArguments color arguments with
  | .error e => writeResponse (.ofUsageError e)
  | .ok .help => writeResponse { code := 0, stdout := helpText ++ "\n" }
  | .ok .version => writeResponse { code := 0, stdout := versionText ++ "\n" }
  | .ok (.parse config) => do
      let input ← match config.input with
        | some input => pure input
        | none => readInput
      match ← readGrammarFile config.grammarFile with
      | .error e => writeResponse (.ofReadError config.grammarFile e)
      | .ok source => writeResponse (← parseTimed config source input)
