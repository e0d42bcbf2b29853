/-
Module: GrammarKit.Proofs.PatternPaths
Purpose: What a match of a pattern says about the text.  The ways of a pattern through a text are defined
  without machines; every path through the states that were built for a pattern is such a way, with the
  assertions left out, and then goes on behind the pattern.  So a run explains itself: the group of a terminal
  holds a text that its pattern spells.
Main exports: Pattern.Leads, Machine.Crosses, Machine.build_crosses, Machine.leads_of_run, Pattern.Spells,
  spells_of_padded
-/
import GrammarKit.Proofs.GroupSpan

namespace GrammarKit.Regex

open Machine (Slots)

/-- A place in a text, given by the number of characters before it, and what has been recorded on the way
there. -/
abbrev Point := Nat × Slots

/-- A number of steps of the same kind. -/
inductive Rounds (R : Point → Point → Prop) : Nat → Point → Point → Prop
  | none {a : Point} : Rounds R 0 a a
  | more {n : Nat} {a b c : Point} (first : R a b) (others : Rounds R n b c) : Rounds R (n + 1) a c

namespace Rounds

variable {R : Point → Point → Prop} {n m : Nat} {a b c : Point}

theorem snoc (h : Rounds R n a b) (last : R b c) : Rounds R (n + 1) a c := by
  induction h with
  | none => exact .more last .none
  | more first _ ih => exact .more first (ih last)

theorem append (h : Rounds R n a b) (h' : Rounds R m b c) : Rounds R (m + n) a c := by
  induction h with
  | none => exact h'
  | more first _ ih => exact .more first (ih h')

end Rounds

/-- A pattern leads from one place of a text to another, if assertions are taken to hold. -/
def Pattern.Leads (text : List Char) : Pattern → Point → Point → Prop
  | .empty, a, b => b = a
  | .literal cs, a, b => cs <+: text.drop a.1 ∧ b = (a.1 + cs.length, a.2)
  | .set s, a, b => ∃ c, text[a.1]? = some c ∧ s.mem c = true ∧ b = (a.1 + 1, a.2)
  | .assertion _, a, b => b = a
  | .group index p, a, b => ∃ slots, p.Leads text (a.1, a.2.set (2 * index) (some a.1)) (b.1, slots) ∧
      b.2 = slots.set (2 * index + 1) (some b.1)
  | .seq p q, a, c => ∃ b, p.Leads text a b ∧ q.Leads text b c
  | .alt p q, a, b => p.Leads text a b ∨ q.Leads text a b
  | .repetition p min max _, a, b => ∃ n, min ≤ n ∧ (∀ most, max = some most → n ≤ min + (most - min)) ∧
      Rounds (p.Leads text) n a b

namespace Machine

/-! ### Paths -/

/-- A path of some number of steps through the states of a machine, up to a given state and place. -/
inductive Path (states : Array State) (text : List Char) (finish : Nat) (last : Point) : Nat → Nat → Point → Prop
  | done : Path states text finish last 0 finish last
  | take {n state : Nat} {a : Point} {s : Unicode.CharSet} {next : Nat} {c : Char}
      (here : states[state]? = some (.take s next)) (char : text[a.1]? = some c) (inside : s.mem c = true)
      (rest : Path states text finish last n next (a.1 + 1, a.2)) : Path states text finish last (n + 1) state a
  | prefer {n state : Nat} {a : Point} {preferred other : Nat}
      (here : states[state]? = some (.split preferred other))
      (rest : Path states text finish last n preferred a) : Path states text finish last (n + 1) state a
  | other {n state : Nat} {a : Point} {preferred other : Nat}
      (here : states[state]? = some (.split preferred other))
      (rest : Path states text finish last n other a) : Path states text finish last (n + 1) state a
  | record {n state : Nat} {a : Point} {slot next : Nat} (here : states[state]? = some (.record slot next))
      (rest : Path states text finish last n next (a.1, a.2.set slot (some a.1))) :
      Path states text finish last (n + 1) state a
  | require {n state : Nat} {a : Point} {assertion : Assertion} {next : Nat}
      (here : states[state]? = some (.require assertion next))
      (rest : Path states text finish last n next a) : Path states text finish last (n + 1) state a

/-- Every thread of a run has come along a path. -/
theorem path_invariant (m : Machine) (text : List Char) :
    m.Invariant text fun position state slots => ∀ {finish last n},
      Path m.states text finish last n state (position, slots) →
        ∃ n, Path m.states text finish last n m.start (0, List.replicate (2 * (m.groups + 1)) none) where
  start path := ⟨_, path⟩
  split found here := ⟨fun path => here (.prefer found path), fun path => here (.other found path)⟩
  record found here := fun path => here (.record found path)
  require found here := fun path => here (.require found path)
  take found char inside here := fun path => here (.take found char inside path)

/-! ### Parts of a machine -/

/-- States have been added behind those that were there, and none of them accepts. -/
structure Adds (before after : Fragment) : Prop where
  size : before.1.size ≤ after.1.size
  old : ∀ i < before.1.size, after.1[i]? = before.1[i]?
  new : ∀ i, before.1.size ≤ i → after.1[i]? ≠ some .accept

/-- A machine has the states that were added. -/
def Has (states : Array State) (before after : Fragment) : Prop :=
  ∀ i, before.1.size ≤ i → i < after.1.size → states[i]? = after.1[i]?

section Parts

variable {f g h : Fragment} {states : Array State}

theorem Adds.refl (f : Fragment) : Adds f f :=
  ⟨Nat.le_refl _, fun _ _ => rfl, fun i above => by simp [Array.getElem?_eq_none above]⟩

theorem Adds.trans (first : Adds f g) (second : Adds g h) : Adds f h := by
  refine ⟨Nat.le_trans first.size second.size, fun i below => ?_, fun i above => ?_⟩
  · rw [second.old i (Nat.lt_of_lt_of_le below first.size), first.old i below]
  · by_cases later : g.1.size ≤ i
    · exact second.new i later
    · rw [second.old i (Nat.lt_of_not_le later)]
      exact first.new i above

theorem Adds.emit (first : Adds f g) {state : State} (goesOn : state ≠ .accept) : Adds f (emit g.1 state) := by
  refine ⟨?_, fun i below => ?_, fun i above => ?_⟩
  · simp only [Machine.emit, Array.size_push]
    exact Nat.le_succ_of_le first.size
  · rw [Machine.emit, Array.getElem?_push_lt (Nat.lt_of_lt_of_le below first.size), ← first.old i below]
    simp
  · rw [Machine.emit, Array.getElem?_push]
    split
    · exact fun same => goesOn (Option.some.inj same)
    · exact first.new i above

theorem Has.first (has : Has states f h) (second : Adds g h) : Has states f g := by
  intro i above below
  rw [has i above (Nat.lt_of_lt_of_le below second.size), second.old i below]

theorem Has.second (has : Has states f h) (first : Adds f g) : Has states g h :=
  fun i above below => has i (Nat.le_trans first.size above) below

/-- The last state that was added. -/
theorem Has.last {state : State} (has : Has states f (emit g.1 state)) (first : Adds f g) :
    states[g.1.size]? = some state := by
  rw [has _ first.size (by simp [emit])]
  simp [emit]

end Parts

/-! ### Ways through parts -/

/-- Every path through the states that were added leads over the text in a given way and then goes on as it
would have without them. -/
structure Crosses (text : List Char) (R : Point → Point → Prop) (before after : Fragment) : Prop where
  adds : Adds before after
  follow : ∀ {states finish last n a}, Has states before after → finish < before.1.size →
    Path states text finish last n after.2 a →
      ∃ b m, m ≤ n ∧ R a b ∧ Path states text finish last m before.2 b

theorem eq_of_mem_single {c c' : Char} (h : (Unicode.CharSet.single c.toNat).mem c' = true) : c' = c := by
  have inside : ¬ c'.toNat < c.toNat ∧ c'.toNat < c.toNat + 1 := by
    simpa [Unicode.CharSet.single, Unicode.CharSet.range, Unicode.CharSet.mem, Unicode.CharSet.holds,
      Unicode.CharSet.holdsFrom] using h
  apply Char.toNat_inj.mp
  omega

namespace Crosses

variable {text : List Char} {R S : Point → Point → Prop} {f g h : Fragment}

theorem refl (f : Fragment) : Crosses text (fun a b => b = a) f f :=
  ⟨.refl f, fun _ _ path => ⟨_, _, Nat.le_refl _, rfl, path⟩⟩

theorem imp (crosses : Crosses text R f g) (weaker : ∀ a b, R a b → S a b) : Crosses text S f g := by
  refine ⟨crosses.adds, fun has outside path => ?_⟩
  obtain ⟨b, m, less, way, path⟩ := crosses.follow has outside path
  exact ⟨b, m, less, weaker _ _ way, path⟩

theorem comp (first : Crosses text R f g) (second : Crosses text S g h) :
    Crosses text (fun a c => ∃ b, S a b ∧ R b c) f h := by
  refine ⟨first.adds.trans second.adds, fun has outside path => ?_⟩
  obtain ⟨b, m, less, way, path⟩ :=
    second.follow (has.second first.adds) (Nat.lt_of_lt_of_le outside first.adds.size) path
  obtain ⟨c, k, less', way', path⟩ := first.follow (has.first second.adds) outside path
  exact ⟨c, k, Nat.le_trans less' less, ⟨b, way, way'⟩, path⟩

/-- One more state, which has to be left. -/
theorem emit {state : State} (part : Adds f g) (goesOn : state ≠ .accept)
    (leaves : ∀ {states finish last n a}, Has states f (Machine.emit g.1 state) → finish < f.1.size →
      states[g.1.size]? = some state → Path states text finish last n g.1.size a → finish ≠ g.1.size →
        ∃ b m, m ≤ n ∧ R a b ∧ Path states text finish last m f.2 b) :
    Crosses text R f (Machine.emit g.1 state) := by
  refine ⟨part.emit goesOn, fun has outside path => leaves has outside (has.last part) path ?_⟩
  exact Nat.ne_of_lt (Nat.lt_of_lt_of_le outside part.size)

theorem take (s : Unicode.CharSet) (f : Fragment) :
    Crosses text (fun a b => ∃ c, text[a.1]? = some c ∧ s.mem c = true ∧ b = (a.1 + 1, a.2)) f
      (Machine.emit f.1 (.take s f.2)) := by
  apply emit (.refl f) (by nofun)
  intro states finish last n a has outside here path ne
  cases path with
  | done => exact absurd rfl ne
  | take found char inside rest =>
    cases here.symm.trans found
    exact ⟨_, _, Nat.le_succ _, ⟨_, char, inside, rfl⟩, rest⟩
  | prefer found _ | other found _ | record found _ | require found _ => cases here.symm.trans found

/-- The characters of a literal, one after the other. -/
theorem literal (cs : List Char) (f : Fragment) :
    Crosses text (fun a b => cs <+: text.drop a.1 ∧ b = (a.1 + cs.length, a.2)) f
      (cs.foldr (fun c (states, next) => Machine.emit states (.take (.single c.toNat) next)) f) := by
  induction cs with
  | nil => exact (refl f).imp fun a b same => ⟨List.nil_prefix, same⟩
  | cons c cs ih =>
    apply (ih.comp (take (.single c.toNat) _)).imp
    rintro a d ⟨b, ⟨c', char, inside, rfl⟩, others, rfl⟩
    obtain rfl := eq_of_mem_single inside
    obtain ⟨below, rfl⟩ := List.getElem?_eq_some_iff.mp char
    constructor
    · rw [List.drop_eq_getElem_cons below]
      exact (List.prefix_cons_inj _).mpr others
    · rw [List.length_cons, Nat.add_assoc, Nat.add_comm 1]

theorem require (assertion : Assertion) (f : Fragment) :
    Crosses text (fun a b => b = a) f (Machine.emit f.1 (.require assertion f.2)) := by
  apply emit (.refl f) (by nofun)
  intro states finish last n a has outside here path ne
  cases path with
  | done => exact absurd rfl ne
  | require found rest =>
    cases here.symm.trans found
    exact ⟨_, _, Nat.le_succ _, rfl, rest⟩
  | prefer found _ | other found _ | record found _ | take found _ _ _ => cases here.symm.trans found

theorem record (slot : Nat) (f : Fragment) :
    Crosses text (fun a b => b = (a.1, a.2.set slot (some a.1))) f (Machine.emit f.1 (.record slot f.2)) := by
  apply emit (.refl f) (by nofun)
  intro states finish last n a has outside here path ne
  cases path with
  | done => exact absurd rfl ne
  | record found rest =>
    cases here.symm.trans found
    exact ⟨_, _, Nat.le_succ _, rfl, rest⟩
  | prefer found _ | other found _ | require found _ | take found _ _ _ => cases here.symm.trans found

end Crosses

/-- A path from a state that splits goes on with one of two others. -/
theorem Path.split {states : Array State} {text : List Char} {finish : Nat} {last : Point} {n state : Nat} {a : Point}
    {preferred other : Nat} (path : Path states text finish last n state a)
    (here : states[state]? = some (.split preferred other)) (ne : finish ≠ state) :
    ∃ m < n, Path states text finish last m preferred a ∨ Path states text finish last m other a := by
  cases path with
  | done => exact absurd rfl ne
  | prefer found rest =>
    cases here.symm.trans found
    exact ⟨_, Nat.lt_succ_self _, .inl rest⟩
  | other found rest =>
    cases here.symm.trans found
    exact ⟨_, Nat.lt_succ_self _, .inr rest⟩
  | record found _ | require found _ | take found _ _ _ => cases here.symm.trans found

/-- A path from a choice goes on with one more round or leaves. -/
theorem Path.choice {states : Array State} {text : List Char} {finish : Nat} {last : Point} {n state : Nat}
    {a : Point} {greedy : Bool} {round leave : Nat} (path : Path states text finish last n state a)
    (here : states[state]? = some (choice greedy round leave)) (ne : finish ≠ state) :
    ∃ m < n, Path states text finish last m round a ∨ Path states text finish last m leave a := by
  cases greedy with
  | true => exact path.split here ne
  | false =>
    obtain ⟨m, less, ways⟩ := path.split here ne
    exact ⟨m, less, ways.symm⟩

theorem choice_ne_accept (greedy : Bool) (round leave : Nat) : choice greedy round leave ≠ .accept := by
  cases greedy <;> nofun

namespace Crosses

variable {text : List Char} {R S : Point → Point → Prop} {f g h : Fragment} {step : Fragment → Fragment}

theorem alt (first : Crosses text R f g) (second : Crosses text S (g.1, f.2) h) :
    Crosses text (fun a b => R a b ∨ S a b) f (Machine.emit h.1 (.split g.2 h.2)) := by
  -- where a part is entered does not matter for what has been added
  have above : Adds g h := ⟨second.adds.size, second.adds.old, second.adds.new⟩
  have below : Adds f (g.1, f.2) := ⟨first.adds.size, first.adds.old, first.adds.new⟩
  have part : Adds f h := first.adds.trans above
  apply emit part (by nofun)
  intro states finish last n a has outside here path ne
  have has := has.first ((Adds.refl h).emit nofun)
  obtain ⟨m, less, path | path⟩ := path.split here ne
  · obtain ⟨b, k, less', way, path⟩ := first.follow (has.first above) outside path
    exact ⟨b, k, Nat.le_trans less' (Nat.le_of_lt less), .inl way, path⟩
  · obtain ⟨b, k, less', way, path⟩ :=
      second.follow (has.second below) (Nat.lt_of_lt_of_le outside below.size) path
    exact ⟨b, k, Nat.le_trans less' (Nat.le_of_lt less), .inr way, path⟩

/-- A part that may be passed by. -/
theorem option (inner : Crosses text R f g) (greedy : Bool) :
    Crosses text (fun a b => b = a ∨ R a b) f (Machine.emit g.1 (choice greedy g.2 f.2)) := by
  apply emit inner.adds (choice_ne_accept _ _ _)
  intro states finish last n a has outside here path ne
  have has := has.first ((Adds.refl g).emit (choice_ne_accept _ _ _))
  obtain ⟨m, less, path | path⟩ := path.choice here ne
  · obtain ⟨b, k, less', way, path⟩ := inner.follow has outside path
    exact ⟨b, k, Nat.le_trans less' (Nat.le_of_lt less), .inr way, path⟩
  · exact ⟨a, m, Nat.le_of_lt less, .inl rfl, path⟩

/-- Some rounds of a step, before what is there. -/
theorem chain (steps : ∀ g, Crosses text R g (step g)) (rest : Crosses text S f g) (n : Nat) :
    Crosses text (fun a c => ∃ b, Rounds R n a b ∧ S b c) f (Machine.chain step n g) := by
  induction n generalizing S g with
  | zero => exact rest.imp fun a b way => ⟨a, .none, way⟩
  | succ n ih =>
    apply (ih (rest.comp (steps g))).imp
    rintro a d ⟨b, rounds, c, last, way⟩
    exact ⟨c, rounds.snoc last, way⟩

/-- One more round that may be left out, together with all rounds behind it. -/
theorem chainOption (steps : ∀ g, Crosses text R g (step g)) (greedy : Bool) {bound : Nat}
    (rest : Crosses text (fun a b => ∃ n ≤ bound, Rounds R n a b) f g) (n : Nat) :
    Crosses text (fun a b => ∃ k ≤ bound + n, Rounds R k a b) f
      (Machine.chain (fun g => Machine.emit (step g).1 (choice greedy (step g).2 f.2)) n g) := by
  induction n generalizing bound g with
  | zero => exact rest
  | succ n ih =>
    have next : Crosses text (fun a b => ∃ k ≤ bound + 1, Rounds R k a b) f
        (Machine.emit (step g).1 (choice greedy (step g).2 f.2)) := by
      have inner := rest.comp (steps g)
      apply emit inner.adds (choice_ne_accept _ _ _)
      intro states finish last n a has outside here path ne
      have has := has.first ((Adds.refl (step g)).emit (choice_ne_accept _ _ _))
      obtain ⟨m, less, path | path⟩ := path.choice here ne
      · obtain ⟨c, k, less', ⟨b, first, rounds, few, others⟩, path⟩ := inner.follow has outside path
        exact ⟨c, k, Nat.le_trans less' (Nat.le_of_lt less), ⟨_, Nat.succ_le_succ few, .more first others⟩, path⟩
      · exact ⟨a, m, Nat.le_of_lt less, ⟨0, Nat.zero_le _, .none⟩, path⟩
    have whole := ih next
    rw [Nat.add_assoc, Nat.add_comm 1 n] at whole
    exact whole

/-- Rounds of a step, from the state between two rounds as well as from the first of the step. -/
theorem loop (steps : ∀ g, Crosses text R g (step g)) (greedy : Bool) (f : Fragment) :
    Crosses text (fun a b => ∃ n, Rounds R (n + 1) a b) f (Machine.loop step greedy f).1 ∧
      Crosses text (fun a b => ∃ n, Rounds R n a b) f
        ((Machine.loop step greedy f).1.1, (Machine.loop step greedy f).2) := by
  obtain ⟨states₀, next⟩ := f
  have opened : Adds (states₀, next) (Machine.emit states₀ (.split next next)) := (Adds.refl _).emit (by nofun)
  have inner := steps (Machine.emit states₀ (.split next next))
  have part := opened.trans inner.adds
  generalize made : step (Machine.emit states₀ (.split next next)) = g at inner part
  have looped : Machine.loop step greedy (states₀, next)
      = ((g.1.setIfInBounds states₀.size (Machine.choice greedy g.2 next), g.2), states₀.size) := by
    rw [Machine.loop, ← made]
    rfl
  have between : states₀.size < g.1.size := by
    apply Nat.lt_of_lt_of_le _ inner.adds.size
    simp [Machine.emit]
  have adds : ∀ entry, Adds (states₀, next)
      (g.1.setIfInBounds states₀.size (Machine.choice greedy g.2 next), entry) := by
    intro entry
    refine ⟨?_, fun i below => ?_, fun i above => ?_⟩
    · simp only [Array.size_setIfInBounds]
      exact part.size
    · rw [Array.getElem?_setIfInBounds_ne (Nat.ne_of_gt below)]
      exact part.old i below
    · rw [Array.getElem?_setIfInBounds]
      split
      · exact fun same => choice_ne_accept _ _ _ (Option.some.inj same)
      · exact part.new i above
  have round : ∀ {states : Array State} {entry finish : Nat} {last : Point} {n : Nat} {a : Point},
      Has states (states₀, next) (g.1.setIfInBounds states₀.size (Machine.choice greedy g.2 next), entry) →
      finish < states₀.size → Path states text finish last n g.2 a →
        ∃ b m, m ≤ n ∧ R a b ∧ Path states text finish last m states₀.size b := by
    intro states entry finish last n a has outside path
    have has : Has states (Machine.emit states₀ (.split next next)) g := by
      intro i above below
      simp only [Machine.emit, Array.size_push] at above
      rw [has i (Nat.le_of_lt above) (by simpa using below), Array.getElem?_setIfInBounds_ne (by omega)]
    exact inner.follow has (Nat.lt_of_lt_of_le outside opened.size) path
  have rounds : ∀ {states : Array State} {entry finish : Nat} {last : Point} (n : Nat) {a : Point},
      Has states (states₀, next) (g.1.setIfInBounds states₀.size (Machine.choice greedy g.2 next), entry) →
      finish < states₀.size → Path states text finish last n states₀.size a →
        ∃ b m, m ≤ n ∧ (∃ k, Rounds R k a b) ∧ Path states text finish last m next b := by
    intro states entry finish last n
    induction n using Nat.strongRecOn with
    | _ n ih =>
      intro a has outside path
      have here : states[states₀.size]? = some (Machine.choice greedy g.2 next) := by
        rw [has _ (Nat.le_refl _) (by simpa using between)]
        simp [between]
      obtain ⟨m, less, path | path⟩ := path.choice here (Nat.ne_of_lt outside)
      · obtain ⟨b, k, less', first, path⟩ := round has outside path
        obtain ⟨c, l, less'', ⟨_, others⟩, path⟩ := ih k (Nat.lt_of_le_of_lt less' less) has outside path
        exact ⟨c, l, by omega, ⟨_, .more first others⟩, path⟩
      · exact ⟨a, m, Nat.le_of_lt less, ⟨0, .none⟩, path⟩
  rw [looped]
  constructor
  · refine ⟨adds g.2, fun has outside path => ?_⟩
    obtain ⟨b, k, less, first, path⟩ := round has outside path
    obtain ⟨c, l, less', ⟨_, others⟩, path⟩ := rounds k has outside path
    exact ⟨c, l, Nat.le_trans less' less, ⟨_, .more first others⟩, path⟩
  · exact ⟨adds states₀.size, fun has outside path => rounds _ has outside path⟩

end Crosses

/-- Every path through the states of a pattern is a way of the pattern. -/
theorem build_crosses (text : List Char) : ∀ (p : Pattern) (f : Fragment), Crosses text (p.Leads text) f (build p f)
  | .empty, f => .refl f
  | .literal cs, f => .literal cs f
  | .set s, f => .take s f
  | .assertion a, f => .require a f
  | .group index p, f => by
    have whole := ((Crosses.record (2 * index + 1) f).comp (build_crosses text p _)).comp (.record (2 * index) _)
    apply whole.imp
    rintro a d ⟨b, rfl, c, way, rfl⟩
    exact ⟨c.2, way, rfl⟩
  | .seq p q, f => (build_crosses text q f).comp (build_crosses text p _)
  | .alt p q, (states, next) => .alt (build_crosses text p (states, next)) (build_crosses text q _)
  | .repetition p 0 none greedy, (states, next) => by
    obtain ⟨several, any⟩ := Crosses.loop (build_crosses text p) greedy (states, next)
    simp only [build]
    split
    · apply any.imp
      rintro a b ⟨n, rounds⟩
      exact ⟨n, Nat.zero_le _, fun max bounded => absurd bounded (Option.some_ne_none max).symm, rounds⟩
    · apply (several.option greedy).imp
      rintro a b (rfl | ⟨n, rounds⟩)
      · exact ⟨0, Nat.le_refl _, fun max bounded => absurd bounded (Option.some_ne_none max).symm, .none⟩
      · exact ⟨n + 1, Nat.zero_le _, fun max bounded => absurd bounded (Option.some_ne_none max).symm, rounds⟩
  | .repetition p (min + 1) none greedy, f => by
    have whole := Crosses.chain (build_crosses text p) (Crosses.loop (build_crosses text p) greedy f).1 min
    apply whole.imp
    rintro a c ⟨b, first, n, others⟩
    exact ⟨n + 1 + min, by omega, fun max bounded => absurd bounded (Option.some_ne_none max).symm, first.append others⟩
  | .repetition p min (some max) greedy, (states, next) => by
    have start : Crosses text (fun a b => ∃ n ≤ 0, Rounds (p.Leads text) n a b) (states, next) (states, next) :=
      (Crosses.refl _).imp fun a b same => ⟨0, Nat.le_refl _, same ▸ .none⟩
    have whole := Crosses.chain (build_crosses text p)
      (Crosses.chainOption (build_crosses text p) greedy start (max - min)) min
    rw [build]
    apply whole.imp
    rintro a c ⟨b, first, n, few, others⟩
    refine ⟨n + min, Nat.le_add_left _ _, ?_, first.append others⟩
    rintro _ ⟨⟩
    omega

/-- The match of a run is a way of its pattern. -/
theorem leads_of_run {p : Pattern} {m : Machine} (made : ofPattern? p = some m) {text : List Char} {length : Nat}
    {slots : Slots} (ran : m.run text = some (length, slots)) :
    p.Leads text (0, List.replicate (2 * (p.lastGroup + 1)) none) (length, slots) := by
  have crosses := build_crosses text p (#[.accept], 0)
  rw [ofPattern?] at made
  split at made
  · obtain rfl := Option.some.inj made
    obtain ⟨state, accepts, back⟩ := (path_invariant _ text).run ran
    obtain rfl : state = 0 := by
      by_contra later
      exact crosses.adds.new state (Nat.pos_of_ne_zero later) accepts
    obtain ⟨n, path⟩ := back .done
    obtain ⟨b, m, -, way, path⟩ := crosses.follow (fun _ _ _ => rfl) Nat.one_pos path
    cases path with
    | done => exact way
    | take found _ _ _ | prefer found _ | other found _ | record found _ | require found _ =>
      cases accepts.symm.trans found
  · cases made

end Machine
/-! ### What groups hold -/

section Groups

variable {text : List Char}

theorem Pattern.Leads.rounds_slots {R : Point → Point → Prop} (each : ∀ {a b}, R a b → b.2 = a.2) {n : Nat}
    {a b : Point} (rounds : Rounds R n a b) : b.2 = a.2 := by
  induction rounds with
  | none => rfl
  | more first _ ih => rw [ih, each first]

/-- Without groups nothing is recorded. -/
theorem Pattern.Leads.slots : ∀ {p : Pattern} {a b : Point}, p.groupCount = 0 → p.Leads text a b → b.2 = a.2
  | .empty, _, _, _, rfl => rfl
  | .assertion _, _, _, _, rfl => rfl
  | .literal _, _, _, _, ⟨_, rfl⟩ => rfl
  | .set _, _, _, _, ⟨_, _, _, rfl⟩ => rfl
  | .seq p q, _, _, free, ⟨_, first, second⟩ => by
    obtain ⟨freeFirst, freeSecond⟩ := Nat.add_eq_zero_iff.mp free
    rw [slots freeSecond second, slots freeFirst first]
  | .alt p q, _, _, free, .inl way => slots (Nat.add_eq_zero_iff.mp free).1 way
  | .alt p q, _, _, free, .inr way => slots (Nat.add_eq_zero_iff.mp free).2 way
  | .repetition p _ _ _, _, _, free, ⟨_, _, _, rounds⟩ => rounds_slots (fun way => slots (p := p) free way) rounds

/-- What a terminal with padding puts out is what its pattern leads over, if there is no other group. -/
theorem output_of_padded {before inner after : Pattern} (freeBefore : before.groupCount = 0)
    (free : inner.groupCount = 0) (freeAfter : after.groupCount = 0) {m : Machine}
    (made : Machine.ofPattern? (.seq (.assertion .textStart) (.seq before (.seq (.group 1 inner) after))) = some m)
    {s : Slice} {found : Match} (matched : match? ⟨m⟩ s = some found) :
    ∃ i j slots, inner.Leads s.chars (i, slots) (j, slots) ∧ found.output = s.extract i j := by
  obtain ⟨⟨length, slots⟩, ran, rfl⟩ := Option.map_eq_some_iff.mp matched
  have way := Machine.leads_of_run made ran
  have last : (Pattern.seq (.assertion .textStart) (.seq before (.seq (.group 1 inner) after))).lastGroup = 1 := by
    simp only [Pattern.lastGroup, Machine.lastGroup_eq_zero freeBefore, Machine.lastGroup_eq_zero free,
      Machine.lastGroup_eq_zero freeAfter]
    decide
  rw [last] at way
  obtain ⟨_, rfl, ⟨i, recorded⟩, first, ⟨j, later⟩, ⟨slots', grouped, same⟩, rest⟩ := way
  obtain rfl : recorded = _ := Pattern.Leads.slots freeBefore first
  obtain rfl : slots' = _ := Pattern.Leads.slots free grouped
  have spans : slots = [none, none, some i, some j] := (Pattern.Leads.slots freeAfter rest).trans same
  subst spans
  exact ⟨i, j, _, grouped, rfl⟩

end Groups

/-! ### Texts -/

/-- The texts that a pattern leads over, wherever they stand. -/
def Pattern.Spells : Pattern → List Char → Prop
  | .empty, cs => cs = []
  | .literal text, cs => cs = text
  | .set s, cs => ∃ c, s.mem c = true ∧ cs = [c]
  | .assertion _, cs => cs = []
  | .group _ p, cs => p.Spells cs
  | .seq p q, cs => ∃ first second, p.Spells first ∧ q.Spells second ∧ cs = first ++ second
  | .alt p q, cs => p.Spells cs ∨ q.Spells cs
  | .repetition p min max _, cs => ∃ parts : List (List Char), min ≤ parts.length ∧
      (∀ most, max = some most → parts.length ≤ min + (most - min)) ∧ (∀ part ∈ parts, p.Spells part) ∧
      cs = parts.flatten

/-- Between two places of a text stands a text that has some property. -/
def Between (text : List Char) (P : List Char → Prop) (a b : Point) : Prop :=
  ∃ cs, P cs ∧ cs <+: text.drop a.1 ∧ b.1 = a.1 + cs.length

section Texts

variable {text : List Char}

/-- Texts between three places, one after the other. -/
theorem Between.append {P Q R : List Char → Prop} (both : ∀ {first second}, P first → Q second → R (first ++ second))
    {a b c : Point} (before : Between text P a b) (after : Between text Q b c) : Between text R a c := by
  obtain ⟨first, here, ⟨rest, starts⟩, length⟩ := before
  obtain ⟨second, there, begins, length'⟩ := after
  refine ⟨first ++ second, both here there, ?_, ?_⟩
  · rw [length, ← List.drop_drop, ← starts, List.drop_left] at begins
    rw [← starts]
    exact (List.prefix_append_right_inj first).mpr begins
  · rw [length', length, List.length_append, Nat.add_assoc]

theorem Rounds.between {R : Point → Point → Prop} {P : List Char → Prop}
    (each : ∀ {a b}, R a b → Between text P a b) {n : Nat} {a b : Point} (rounds : Rounds R n a b) :
    Between text (fun cs => ∃ parts : List (List Char), parts.length = n ∧ (∀ part ∈ parts, P part) ∧
      cs = parts.flatten) a b := by
  induction rounds with
  | none => exact ⟨[], ⟨[], rfl, List.forall_mem_nil _, rfl⟩, List.nil_prefix, rfl⟩
  | more first _ ih =>
    refine (each first).append ?_ ih
    rintro part _ here ⟨parts, rfl, others, rfl⟩
    exact ⟨part :: parts, rfl, List.forall_mem_cons.mpr ⟨here, others⟩, rfl⟩

/-- Between the places that a pattern leads from and to stands a text that it spells. -/
theorem Pattern.Leads.between : ∀ {p : Pattern} {a b : Point}, p.Leads text a b → Between text p.Spells a b
  | .empty, _, _, rfl => ⟨[], rfl, List.nil_prefix, rfl⟩
  | .assertion _, _, _, rfl => ⟨[], rfl, List.nil_prefix, rfl⟩
  | .literal cs, _, _, ⟨begins, rfl⟩ => ⟨cs, rfl, begins, rfl⟩
  | .set s, (i, _), _, ⟨c, char, inside, rfl⟩ => by
    refine ⟨[c], ⟨c, inside, rfl⟩, ?_, rfl⟩
    rw [List.drop_eq_getElem?_toList_append, char]
    exact List.prefix_append [c] _
  | .group _ p, _, _, ⟨_, way, _⟩ => way.between (p := p)
  | .seq p q, _, _, ⟨_, first, second⟩ =>
    (first.between (p := p)).append (fun here there => ⟨_, _, here, there, rfl⟩) (second.between (p := q))
  | .alt p q, _, _, .inl way =>
    have ⟨cs, spelled, place⟩ := way.between (p := p)
    ⟨cs, .inl spelled, place⟩
  | .alt p q, _, _, .inr way =>
    have ⟨cs, spelled, place⟩ := way.between (p := q)
    ⟨cs, .inr spelled, place⟩
  | .repetition p _ _ _, _, _, ⟨_, least, most, rounds⟩ =>
    have ⟨cs, ⟨parts, length, each, whole⟩, place⟩ := rounds.between fun way => way.between (p := p)
    ⟨cs, ⟨parts, length ▸ least, length ▸ most, each, whole⟩, place⟩

/-- What a terminal with padding puts out is spelled by its pattern, if there is no other group. -/
theorem spells_of_padded {before inner after : Pattern} (freeBefore : before.groupCount = 0)
    (free : inner.groupCount = 0) (freeAfter : after.groupCount = 0) {m : Machine}
    (made : Machine.ofPattern? (.seq (.assertion .textStart) (.seq before (.seq (.group 1 inner) after))) = some m)
    {s : Slice} {found : Match} (matched : match? ⟨m⟩ s = some found) : inner.Spells found.output.chars := by
  obtain ⟨i, j, slots, way, output⟩ := output_of_padded freeBefore free freeAfter made matched
  obtain ⟨cs, spelled, begins, length⟩ := way.between
  have shown : (s.extract i j).chars = cs := by
    show (s.chars.drop i).take (j - i) = cs
    have length : j = i + cs.length := length
    rw [length, Nat.add_sub_cancel_left]
    exact (List.prefix_iff_eq_take.mp begins).symm
  rw [output, shown]
  exact spelled

end Texts

end GrammarKit.Regex
