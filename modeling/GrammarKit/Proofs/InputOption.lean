/-
Module: GrammarKit.Proofs.InputOption
Purpose: The ways to give the input on the command line.  The long and the short option with the value behind them and
  the option with the value in the same argument are read alike, with one exception: where the value is in the same
  argument and begins with the option itself, that beginning is dropped as well.
Main exports: BeforeOption, readOptions_append, readArguments_input, readArguments_repeated
-/
import Mathlib.Logic.Function.Iterate
import GrammarKit.CommandLine
import GrammarKit.Proofs.Results

namespace GrammarKit.CommandLine

/-! ### Where options stand -/

/-- Behind these arguments an option may stand: none of them ends the options, and each option that wants a value has
one. -/
inductive BeforeOption : List String → Prop
  | start : BeforeOption []
  | value {option : String} {rest : List String} (wants : option = "--input" ∨ option = "-i") (value : String)
      (others : BeforeOption rest) : BeforeOption (option :: value :: rest)
  | single {argument : String} {rest : List String} (alone : argument ∉ ["--", "--input", "-i"])
      (others : BeforeOption rest) : BeforeOption (argument :: rest)

/-- An argument that neither ends the options nor wants a value is read by itself. -/
theorem readOptions_single {argument : String} (alone : argument ∉ ["--", "--input", "-i"]) (o : Options)
    (rest : List String) :
    readOptions o (argument :: rest) = readOptions o [argument] >>= fun o => readOptions o rest := by
  simp only [List.mem_cons, List.not_mem_nil, or_false, not_or] at alone
  obtain ⟨noEnd, noLong, noShort⟩ := alone
  rw [readOptions.eq_def, readOptions.eq_def o [argument]]
  dsimp only
  split
  case h_11 => exact absurd rfl noEnd
  case h_12 => exact absurd rfl noLong
  case h_13 => exact absurd rfl noShort
  case h_14 =>
    cases inlineValue? argument with
    | some value =>
      dsimp only
      cases o.setInputOrStop value <;> rfl
    | none =>
      dsimp only
      split <;> rfl
  all_goals rfl

/-- The value of an input option is the argument behind it. -/
theorem readOptions_value {option : String} (wants : option = "--input" ∨ option = "-i") (o : Options)
    (value : String) (rest : List String) :
    readOptions o (option :: value :: rest) = o.setInputOrStop value >>= fun o => readOptions o rest := by
  rcases wants with rfl | rfl <;> rfl

/-- Arguments behind which an option may stand are read first, and what follows with what they have set. -/
theorem readOptions_append {before : List String} (place : BeforeOption before) (o : Options) (rest : List String) :
    readOptions o (before ++ rest) = readOptions o before >>= fun o => readOptions o rest := by
  induction place generalizing o with
  | start => rfl
  | value wants value _ ih =>
    rw [List.cons_append, List.cons_append, readOptions_value wants, readOptions_value wants, bind_assoc]
    simp only [ih]
  | @single argument others alone _ ih =>
    rw [List.cons_append, readOptions_single alone, readOptions_single alone o others, bind_assoc]
    simp only [ih]

/-! ### Values in the same argument -/

/-- All copies of a text at the start of another are dropped. -/
theorem dropRepeated_copies {head cs : List Char} (other : ¬ head <+: cs) {fuel copies : Nat} (enough : copies ≤ fuel) :
    dropRepeated head fuel ((head ++ ·)^[copies] cs) = cs := by
  induction copies generalizing fuel with
  | zero =>
    cases fuel with
    | zero => rfl
    | succ fuel =>
      rw [Function.iterate_zero, id, dropRepeated, if_neg (mt List.isPrefixOf_iff_prefix.mp other)]
  | succ copies ih =>
    obtain ⟨fuel, rfl⟩ := Nat.exists_eq_succ_of_ne_zero (Nat.ne_zero_of_lt enough)
    rw [Function.iterate_succ_apply', dropRepeated, List.isPrefixOf_iff_prefix.mpr (List.prefix_append _ _),
      if_pos rfl, List.drop_left]
    exact ih (Nat.le_of_succ_le_succ enough)

theorem toList_copies (value : String) (copies : Nat) :
    (("--input=" ++ ·)^[copies] value).toList = (inlineInput ++ ·)^[copies] value.toList := by
  induction copies with
  | zero => rfl
  | succ copies ih =>
    rw [Function.iterate_succ_apply', Function.iterate_succ_apply', ← ih, String.toList_append]
    rfl

theorem length_copies (cs : List Char) (copies : Nat) : copies ≤ ((inlineInput ++ ·)^[copies] cs).length := by
  induction copies with
  | zero => exact Nat.zero_le _
  | succ copies ih =>
    have longer : 1 ≤ inlineInput.length := by decide
    rw [Function.iterate_succ_apply', List.length_append]
    omega

/-- An argument that begins with the input option is that option. -/
theorem readOptions_inline {argument : String} (begins : inlineInput <+: argument.toList) (o : Options)
    (rest : List String) :
    readOptions o (argument :: rest)
      = o.setInputOrStop (String.ofList (dropRepeated inlineInput argument.toList.length argument.toList))
          >>= fun o => readOptions o rest := by
  have value : inlineValue? argument
      = some (String.ofList (dropRepeated inlineInput argument.toList.length argument.toList)) :=
    if_pos (List.isPrefixOf_iff_prefix.mpr begins)
  rw [readOptions.eq_def]
  dsimp only
  split
  case h_14 => rw [value]
  -- no other option begins like this one
  all_goals exact absurd begins (by decide)

theorem readOptions_copies {value : String} (other : ¬ inlineInput <+: value.toList) (copies : Nat) (o : Options)
    (rest : List String) :
    readOptions o (("--input=" ++ ·)^[copies + 1] value :: rest) = readOptions o ("--input" :: value :: rest) := by
  have chars := toList_copies value (copies + 1)
  have begins : inlineInput <+: (("--input=" ++ ·)^[copies + 1] value).toList := by
    rw [chars, Function.iterate_succ_apply']
    exact List.prefix_append _ _
  rw [readOptions_inline begins, chars, dropRepeated_copies other (length_copies _ _), String.ofList_toList]
  rfl

/-! ### The input -/

/-- Options in which the input that has been given stays, or reading has stopped without a configuration. -/
abbrev Keeps (o : Options) (x : Except Stop Options) : Prop :=
  Except.Meets (fun o' => ∀ value, o.input = some value → o'.input = some value)
    (fun stop => ∀ config, stop ≠ .request (.parse config)) x

theorem keeps_setInputOrStop (o : Options) (value : String) : Keeps o (o.setInputOrStop value) := by
  rw [Options.setInputOrStop, Options.setInput]
  split
  · exact .error nofun
  · next free =>
    refine .ok fun value given => ?_
    rw [given] at free
    exact absurd rfl free

/-- An input that has been given stays, and only the end of the arguments makes a configuration. -/
theorem keeps_readOptions (o : Options) (arguments : List String) : Keeps o (readOptions o arguments) := by
  -- where the input is set, it has not been given before
  have sets {o : Options} {rest : List String} (ih : ∀ o, Keeps o (readOptions o rest)) (value : String) :
      Keeps o (o.setInputOrStop value >>= fun o => readOptions o rest) :=
    (keeps_setInputOrStop o value).bind fun o keeps =>
      (ih o).mono fun _ stays value given => stays value (keeps value given)
  fun_induction readOptions o arguments
  case case1 | case12 => exact .ok fun _ => id
  -- flags and positional arguments leave the input as it is
  case case6 ih | case7 ih | case8 ih | case9 ih | case10 ih | case11 ih => exact ih
  case case14 ih | case16 ih => exact sets ih _
  case case17 ih =>
    simp only [‹inlineValue? _ = some _›]
    exact sets ih _
  case case18 =>
    simp only [‹inlineValue? _ = none›]
    rw [if_pos ‹_›]
    exact .error nofun
  case case19 ih =>
    simp only [‹inlineValue? _ = none›]
    rw [if_neg ‹_›]
    exact ih
  all_goals exact .error nofun

theorem input_of_setInputOrStop {o o' : Options} {value : String} (set : o.setInputOrStop value = .ok o') :
    o'.input = some value := by
  rw [Options.setInputOrStop, Options.setInput] at set
  split at set
  · cases set
  · cases set
    rfl

theorem input_of_config {o : Options} {config : Config} {value : String} (given : o.input = some value)
    (made : o.config = .ok config) : config.input = some value := by
  rw [Options.config] at made
  split at made
  · dsimp only at made
    split at made
    · cases made
      exact given
    · rw [Options.setInput, given] at made
      cases made
  · cases made

/-- Arguments that are read alike ask for the same. -/
theorem readArguments_congr {color : Bool} {arguments arguments' : List String}
    (same : readOptions { color := color } arguments = readOptions { color := color } arguments') :
    readArguments color arguments = readArguments color arguments' := by
  rw [readArguments, same, readArguments]

/-- **The input option is read alike however it is written.**  Wherever an option may stand, the short option with a
value behind it is read as the long one is, and so is the long option with the value in the same argument, if the value
does not begin with the option itself; any copies of the option in front of such a value are dropped.  The
configuration, if there is one, has just that value as its input. -/
theorem readArguments_input (color : Bool) {before : List String} (place : BeforeOption before) (value : String)
    (after : List String) :
    readArguments color (before ++ "-i" :: value :: after)
        = readArguments color (before ++ "--input" :: value :: after) ∧
      (¬ inlineInput <+: value.toList → ∀ copies,
        readArguments color (before ++ ("--input=" ++ ·)^[copies + 1] value :: after)
          = readArguments color (before ++ "--input" :: value :: after)) ∧
      ∀ config, readArguments color (before ++ "--input" :: value :: after) = .ok (.parse config) →
        config.input = some value := by
  refine ⟨?_, fun other copies => ?_, fun config asked => ?_⟩
  · apply readArguments_congr
    rw [readOptions_append place, readOptions_append place]
    simp only [readOptions_value (.inl rfl), readOptions_value (.inr rfl)]
  · apply readArguments_congr
    rw [readOptions_append place, readOptions_append place]
    simp only [readOptions_copies other]
  · have keeps := keeps_readOptions { color := color } (before ++ "--input" :: value :: after)
    rw [readArguments] at asked
    split at asked
    case h_1 request stopped =>
      -- no configuration is asked for before the arguments end
      cases asked
      rw [stopped] at keeps
      cases keeps with
      | error never => exact absurd rfl (never config)
    case h_2 => cases asked
    case h_3 o read =>
      obtain ⟨_, made, same⟩ := Except.map_eq_ok asked
      cases same
      rw [readOptions_append place] at read
      obtain ⟨o₁, -, read⟩ := Except.bind_eq_ok read
      rw [readOptions_value (.inl rfl)] at read
      obtain ⟨o₂, set, read⟩ := Except.bind_eq_ok read
      have keeps := keeps_readOptions o₂ after
      rw [read] at keeps
      cases keeps with
      | ok stays => exact input_of_config (stays value (input_of_setInputOrStop set)) made

/-- Behind a flag and the positional arguments, before more options. -/
theorem readArguments_input_betweenOptions :
    BeforeOption ["--ast", "list.pn", "items"] ∧ (¬ inlineInput <+: "-i=--input=".toList) ∧
      readArguments true ["--ast", "list.pn", "items", "--input=-i=--input=", "--no-color"]
        = .ok (.parse ⟨"list.pn", "items", some "-i=--input=", { generic := true }, false, false⟩) := by
  have place : BeforeOption ["--ast", "list.pn", "items"] :=
    .single (by decide) (.single (by decide) (.single (by decide) .start))
  have other : ¬ inlineInput <+: "-i=--input=".toList := by decide
  refine ⟨place, other, ?_⟩
  obtain ⟨short, inline, -⟩ := readArguments_input true place "-i=--input=" ["--no-color"]
  exact (inline other 0).trans (short.symm.trans (by decide))

/-- A value that begins with the option itself loses that beginning if it is given in the same argument, and only
then. -/
theorem readArguments_repeated :
    readArguments false ["list.pn", "items", "--input=" ++ "--input=x"]
        = .ok (.parse ⟨"list.pn", "items", some "x", {}, false, false⟩) ∧
      readArguments false ["list.pn", "items", "--input", "--input=x"]
        = .ok (.parse ⟨"list.pn", "items", some "--input=x", {}, false, false⟩) := by
  decide

end GrammarKit.CommandLine
