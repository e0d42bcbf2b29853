/-
Module: GrammarKit.Regex.Machine
Purpose: The matching of regular expressions.  A pattern becomes a list of states; a run keeps the
  states it can be in as an ordered list of threads, the preferred one first, and advances all of them by
  one character at a time.  A state is entered once per position only, by the thread that prefers it
  most, so a run takes time in proportion to the text and ends on every pattern.
Main exports: State, Machine, Machine.ofPattern?, Machine.run
-/
import GrammarKit.Regex.Extent

namespace GrammarKit.Regex

open Unicode (CharSet)

/-- The states of a machine; states are named by their index. -/
inductive State where
  /-- Take one character of the set. -/
  | take (s : CharSet) (next : Nat)
  /-- Go on with either state and prefer the first. -/
  | split (preferred other : Nat)
  /-- Record the position in a slot. -/
  | record (slot next : Nat)
  /-- Go on if the assertion holds here. -/
  | require (a : Assertion) (next : Nat)
  /-- A match ends here. -/
  | accept
deriving Repr, Inhabited, DecidableEq

/-- A machine: its states, the one to start in, and the number of groups it records. -/
structure Machine where
  states : Array State
  start : Nat
  groups : Nat
deriving Repr, Inhabited, DecidableEq

namespace Machine

/-! ### From patterns to states -/

/-- The states made so far, and where the part at hand is entered. -/
abbrev Fragment := Array State × Nat

/-- Add one state and enter there. -/
def emit (states : Array State) (state : State) : Fragment :=
  let entry := states.size
  (states.push state, entry)

/-- Run a step of construction `n` times, each time leading to the entry made before. -/
def chain (step : Fragment → Fragment) : Nat → Fragment → Fragment
  | 0, fragment => fragment
  | n + 1, fragment => chain step n (step fragment)

/-- A choice between one more round and the end; greedy repetitions prefer the round. -/
def choice (greedy : Bool) (round leave : Nat) : State :=
  if greedy then .split round leave else .split leave round

/-- The states of one or more rounds of a step, and the state between two rounds. -/
def loop (step : Fragment → Fragment) (greedy : Bool) (fragment : Fragment) : Fragment × Nat :=
  let (states, next) := fragment
  let between := states.size
  let (states, round) := step (states.push (.split next next), between)
  ((states.setIfInBounds between (choice greedy round next), round), between)

/-- The states that match a pattern and then go on as the given fragment does. -/
def build : Pattern → Fragment → Fragment
  | .empty, fragment => fragment
  | .literal text, fragment =>
      text.foldr (fun c (states, next) => emit states (.take (.single c.toNat) next)) fragment
  | .set s, (states, next) => emit states (.take s next)
  | .assertion a, (states, next) => emit states (.require a next)
  | .group i p, (states, next) =>
      let (states, inner) := build p (emit states (.record (2 * i + 1) next))
      emit states (.record (2 * i) inner)
  | .seq p q, fragment => build p (build q fragment)
  | .alt p q, (states, next) =>
      let (states, first) := build p (states, next)
      let (states, second) := build q (states, next)
      emit states (.split first second)
  | .repetition p 0 none greedy, (states, next) =>
      let ((states, round), between) := loop (build p) greedy (states, next)
      if p.consumes then (states, between)
      else emit states (choice greedy round next)
  | .repetition p (min + 1) none greedy, fragment =>
      chain (build p) min (loop (build p) greedy fragment).1
  | .repetition p min (some max) greedy, (states, next) =>
      let optional := fun fragment =>
        let (states, round) := build p fragment
        emit states (choice greedy round next)
      chain (build p) min (chain optional (max - min) (states, next))

/-- The machine of a pattern, unless it would be too large. -/
def ofPattern? (p : Pattern) : Option Machine :=
  if p.fits then
    let (states, start) := build p (#[.accept], 0)
    some ⟨states, start, p.lastGroup⟩
  else none

/-! ### Runs -/

/-- Where each group starts and ends, as far as it has been recorded, in characters from the start. -/
abbrev Slots := List (Option Nat)

/-- A thread waits in a state and remembers the slots that led there. -/
structure Thread where
  state : Nat
  slots : Slots
deriving Repr, Inhabited, DecidableEq

/-- The states entered at one position, as a set of bits, and the threads waiting there, the most
preferred last. -/
structure Front where
  entered : Nat
  threads : List Thread
deriving Repr, Inhabited, DecidableEq

/-- No state entered, no thread waiting. -/
def Front.none : Front := ⟨0, []⟩

/-- Enter a state and all that can be reached from it without taking a character.  The depth of the
recursion is at most the number of states, since each is entered once. -/
def enter (m : Machine) (position : Nat) (before after : Option Char) :
    Nat → Nat → Slots → Front → Front
  | 0, _, _, front => front
  | fuel + 1, state, slots, front =>
      if front.entered.testBit state then front
      else
        let front := { front with entered := front.entered ||| (1 <<< state) }
        match m.states[state]? with
        | some (.split preferred other) =>
            enter m position before after fuel other slots
              (enter m position before after fuel preferred slots front)
        | some (.record slot next) =>
            enter m position before after fuel next (slots.set slot (some position)) front
        | some (.require a next) =>
            if a.holds before after then enter m position before after fuel next slots front
            else front
        | _ => { front with threads := ⟨state, slots⟩ :: front.threads }

/-- Threads in the order of preference, up to the first that accepts: those that wait for a character, and
the slots of the one that accepts. -/
def untilAccept (m : Machine) : List Thread → List Thread × Option Slots
  | [] => ([], Option.none)
  | t :: ts =>
      match m.states[t.state]? with
      | some .accept => ([], some t.slots)
      | _ =>
          let (waiting, accepted) := untilAccept m ts
          (t :: waiting, accepted)

/-- Let one waiting thread take a character. -/
def step (m : Machine) (position : Nat) (c : Char) (after : Option Char) (front : Front)
    (t : Thread) : Front :=
  match m.states[t.state]? with
  | some (State.take s next) =>
      if s.mem c then enter m position (some c) after m.states.size next t.slots front else front
  | _ => front

/-- Let the waiting threads take a character, the most preferred first. -/
def advance (m : Machine) (position : Nat) (c : Char) (after : Option Char)
    (waiting : List Thread) : Front :=
  waiting.foldl (step m position c after) Front.none

/-- Follow the threads through the rest of the text.  `best` is the preferred match among those that have
ended so far; a thread that is preferred to it may still replace it. -/
def follow (m : Machine) (position : Nat) (front : Front) (best : Option (Nat × Slots)) :
    List Char → Option (Nat × Slots)
  | [] =>
      match (untilAccept m front.threads.reverse).2 with
      | some slots => some (position, slots)
      | Option.none => best
  | c :: cs =>
      let (waiting, accepted) := untilAccept m front.threads.reverse
      let best := match accepted with
        | some slots => some (position, slots)
        | Option.none => best
      if waiting.isEmpty then best
      else follow m (position + 1) (advance m (position + 1) c cs.head? waiting) best cs

/-- The preferred match at the start of a text: its length and the slots of its groups. -/
def run (m : Machine) (cs : List Char) : Option (Nat × Slots) :=
  let slots := List.replicate (2 * (m.groups + 1)) Option.none
  follow m 0 (enter m 0 Option.none cs.head? m.states.size m.start slots Front.none) Option.none cs

end Machine
end GrammarKit.Regex
