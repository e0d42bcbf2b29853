/-
Module: GrammarKit.CommandLine.Directory
Purpose: Reading a file by its path.  A path is walked step by step through a tree of which the files of the
  working directory are known, and beside them only what is the same everywhere: that there is a root, that
  there are directories around the working directory, and some places that every system has.
Main exports: ReadError, Directory, Directory.Place, Directory.read
-/

namespace GrammarKit.CommandLine

/-- Why a file cannot be read. -/
inductive ReadError where
  | notFound
  | notADirectory
  | isADirectory
  | nameTooLong
  /-- Any other reason, in words. -/
  | other (reason : String)
deriving Repr, Inhabited, DecidableEq

/-- The reason in words. -/
def ReadError.message : ReadError → String
  | notFound => "No such file or directory (os error 2)"
  | notADirectory => "Not a directory (os error 20)"
  | isADirectory => "Is a directory (os error 21)"
  | nameTooLong => "File name too long (os error 36)"
  | other reason => reason

/-- The files that a program finds: those of the working directory, by their paths, and what there is to read
from the standard input, which has a path as well. -/
structure Directory where
  files : List (String × String)
  stdin : String
deriving Repr, Inhabited, DecidableEq

namespace Directory

/-- The greatest length of a step of a path, in bytes. -/
def stepLimit : Nat := 255

/-- The greatest length of a path, in bytes. -/
def pathLimit : Nat := 4095

/-- Where a walk has come to.  The steps to a place stand with the last one first. -/
inductive Place where
  /-- The working directory and what it holds. -/
  | within (steps : List String)
  /-- Some directory around the working directory. -/
  | around
  /-- The root and what it holds. -/
  | system (steps : List String)
deriving Repr, Inhabited, DecidableEq

/-- What there is at a place. -/
inductive Entry where
  | file (content : String)
  | directory
deriving Repr, Inhabited, DecidableEq

/-- The place that holds a place.  The root holds itself. -/
def Place.parent : Place → Place
  | within [] => around
  | within (_ :: steps) => within steps
  | around => around
  | system steps => system steps.tail

/-- The place that a name leads to, if its place is known. -/
def Place.enter? (name : String) : Place → Option Place
  | within steps => some (within (name :: steps))
  | around => none
  | system steps => some (system (name :: steps))

/-- The steps of a path, without those that stay where they are. -/
def steps (path : String) : List String :=
  (path.splitOn "/").filter fun step => step ≠ "" ∧ step ≠ "."

/-- What there is at some steps from where files have their paths. -/
def entryAmong (files : List (String × String)) (wanted : List String) : Option Entry :=
  match files.find? fun (name, _) => steps name == wanted with
  | some (_, content) => some (.file content)
  | none =>
      if files.any fun (name, _) => wanted.isPrefixOf (steps name) then some .directory else none

/-- The directories that every system has in its root. -/
def systemDirectories : List String :=
  ["bin", "dev", "etc", "home", "lib", "opt", "proc", "sbin", "sys", "tmp", "usr", "var"]

/-- The files that every system has, by their paths from the root. -/
def systemFiles (d : Directory) : List (String × String) :=
  [("dev/null", ""), ("dev/stdin", d.stdin)]

/-- What there is at a place, if anything. -/
def entry? (d : Directory) : Place → Option Entry
  | .around | .within [] | .system [] => some .directory
  | .within reversed => entryAmong d.files reversed.reverse
  | .system [name] => if systemDirectories.contains name then some .directory else none
  | .system reversed => entryAmong d.systemFiles reversed.reverse

/-- Take one step of a path.  Only from a directory can one go anywhere, even to stay. -/
def step (d : Directory) (place : Place) (name : String) : Except ReadError Place :=
  if d.entry? place ≠ some .directory then .error .notADirectory
  else if name = "" ∨ name = "." then .ok place
  else if name = ".." then .ok place.parent
  else if stepLimit < name.utf8ByteSize then .error .nameTooLong
  else match place.enter? name with
    | none => .error .notFound
    | some next => if (d.entry? next).isSome then .ok next else .error .notFound

/-- Where a path leads. -/
def walk (d : Directory) (path : String) : Except ReadError Place :=
  let start := if path.startsWith "/" then Place.system [] else .within []
  (path.splitOn "/").foldlM d.step start

/-- The content of the file at a path. -/
def read (d : Directory) (path : String) : Except ReadError String := do
  if path = "" then .error .notFound
  else if pathLimit < path.utf8ByteSize then .error .nameTooLong
  else
    match d.entry? (← d.walk path) with
    | some (.file content) => .ok content
    | some .directory => .error .isADirectory
    | none => .error .notFound

end Directory
end GrammarKit.CommandLine
