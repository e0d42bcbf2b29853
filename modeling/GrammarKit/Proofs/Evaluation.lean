/-
Module: GrammarKit.Proofs.Evaluation
Purpose: Evaluating a grammar as it stands, without a program.  A term does to the input what its parts do, read in
  the environment in which they stand; the name of a rule means the rule of the innermost grammar around it that has
  one of that name, and its term is read where that grammar stands.
Main exports: Environment, Environment.find?, Environment.padding, Term.recognizer, Term.evaluate, Grammar.places
-/
import GrammarKit.Grammar.Scope
import GrammarKit.Parse.Recognizer
import GrammarKit.Program.Padding

namespace GrammarKit

/-! ### Environments -/

/-- What stands around a term. -/
inductive Frame where
  /-- A grammar whose rules can be seen. -/
  | rules (grammar : Grammar)
  /-- A back reference, with the term in its default. -/
  | default

/-- All that stands around a term, the innermost first. -/
abbrev Environment := List Frame

namespace Environment

/-- The term of the rule that a name means, and the environment in which that term is to be read. -/
def find? (name : String) : Environment → Option (Term × Environment)
  | [] => none
  | .default :: outer => find? name outer
  | .rules g :: outer =>
      match g.get? name with
      | some t => some (t, .rules g :: outer)
      | none => find? name outer

/-- The padding around terminals: that of the innermost grammar that defines one.  Terminals in the default of a
back reference have none from outside. -/
def padding : Environment → Except Error (Option Padding)
  | [] => .ok none
  | .default :: _ => .ok none
  | .rules g :: outer => if (g.get? paddingRule).isSome then Padding.ofGrammar g none else padding outer

/-- The grammars of an environment. -/
def scope : Environment → Scope
  | [] => []
  | .default :: outer => scope outer
  | .rules g :: outer => g :: scope outer

/-- Names mean what they mean among the grammars around a place. -/
theorem find?_scope (name : String) (env : Environment) :
    env.scope.find? name = (env.find? name).map fun found => (found.1, found.2.scope) := by
  induction env with
  | nil => rfl
  | cons frame outer ih =>
    cases frame with
    | default => exact ih
    | rules g =>
      simp only [scope, Scope.find?, find?]
      cases g.get? name with
      | some t => rfl
      | none => exact ih

end Environment

/-! ### Terms -/

/-- A recognizer that comes to no end. -/
def Recognizer.endless : Recognizer :=
  fun _ _ _ t => (.exhausted, t)

namespace Term

/-- What a literal or a regular expression does in an environment.  Without a pattern that makes sense it does
nothing. -/
def terminalRecognizer (env : Environment) (t : Term) : Recognizer :=
  match env.padding.bind (terminal t) with
  | .ok made => Recognizer.terminal made.regex made.expected
  | .error _ => .endless

mutual
/-- What a term does in an environment, given what the terms of rules do in theirs.  The label is the name of the
rule or capture that the term stands for. -/
def recognizer (call : Environment → Option String → Term → Recognizer) (env : Environment)
    (label : Option String) : Term → Recognizer
  | rule name => fun caller =>
      match env.find? name with
      | some (body, outer) => call outer (some name) body (label.getD caller)
      | none => Recognizer.endless caller
  | literal text => fun caller => terminalRecognizer env (literal text) (label.getD caller)
  | regex pattern => fun caller => terminalRecognizer env (regex pattern) (label.getD caller)
  | seq ts => fun caller => Recognizer.sequence label (steps call env ts) (label.getD caller)
  | choice ts => fun caller => Recognizer.choice label (recognizers call env ts) (label.getD caller)
  | stack _ => .endless
  | list element separator style => fun caller =>
      Recognizer.list label
        ⟨recognizer call env none element, recognizer call env none separator, style, separator.isCut⟩
        (label.getD caller)
  | quant t min max => fun caller =>
      Recognizer.repetition label (recognizer call env none t) min max (label.getD caller)
  | capture name t => recognizer call env (some name) t
  | backref name default => fun caller =>
      Recognizer.backref name (recognizerDefault call (.default :: env) default) (label.getD caller)
  | cut t => recognizer call env label t
  | withRules t rules => recognizer call (.rules rules :: env) label t

/-- The items of a sequence.  Each is bound to its name, if it has one. -/
def steps (call : Environment → Option String → Term → Recognizer) (env : Environment) :
    List Term → List Recognizer.Step
  | [] => []
  | t :: ts => ⟨t.bindingName?, t.isCut, recognizer call env none t⟩ :: steps call env ts

/-- What several terms do. -/
def recognizers (call : Environment → Option String → Term → Recognizer) (env : Environment) :
    List Term → List Recognizer
  | [] => []
  | t :: ts => recognizer call env none t :: recognizers call env ts

/-- What a default does. -/
def recognizerDefault (call : Environment → Option String → Term → Recognizer) (env : Environment) :
    Option Term → Option Recognizer
  | none => none
  | some t => some (recognizer call env none t)
end

/-- A term with a label works for the rule or capture of that name, whoever asks for it. -/
theorem recognizer_some (call : Environment → Option String → Term → Recognizer) : ∀ (env : Environment)
    (name : String) (t : Term) (caller caller' : String),
    recognizer call env (some name) t caller = recognizer call env (some name) t caller'
  | _, _, rule _, _, _ => rfl
  | _, _, literal _, _, _ => rfl
  | _, _, regex _, _, _ => rfl
  | _, _, seq _, _, _ => rfl
  | _, _, choice _, _, _ => rfl
  | _, _, stack _, _, _ => rfl
  | _, _, list _ _ _, _, _ => rfl
  | _, _, quant _ _ _, _, _ => rfl
  | env, _, capture name t, caller, caller' => recognizer_some call env name t caller caller'
  | _, _, backref _ _, _, _ => rfl
  | env, name, cut t, caller, caller' => recognizer_some call env name t caller caller'
  | env, name, withRules t rules, caller, caller' =>
      recognizer_some call (.rules rules :: env) name t caller caller'

theorem recognizer_getD (call : Environment → Option String → Term → Recognizer) (env : Environment)
    (label : Option String) (t : Term) (caller : String) :
    recognizer call env label t (label.getD caller) = recognizer call env label t caller := by
  cases label with
  | none => rfl
  | some name => exact recognizer_some call env name t _ _

/-- Evaluate a term in an environment, with rules inside each other to at most the given depth. -/
def evaluate : Nat → Environment → Option String → Term → Recognizer
  | 0 => fun _ _ _ => .endless
  | depth + 1 => recognizer (evaluate depth)

/-! ### The places of rules -/

mutual
/-- The environments that a term makes for rules inside it. -/
def places (env : Environment) : Term → List Environment
  | rule _ => []
  | literal _ => []
  | regex _ => []
  | seq ts => placesAll env ts
  | choice ts => placesAll env ts
  | stack ts => placesAll env ts
  | list element separator _ => places env element ++ places env separator
  | quant t _ _ => places env t
  | capture _ t => places env t
  | backref _ default => placesDefault (.default :: env) default
  | cut t => places env t
  | withRules t rules => (.rules rules :: env) :: (placesTable (.rules rules :: env) rules
      ++ places (.rules rules :: env) t)

/-- The environments that several terms make for rules inside them. -/
def placesAll (env : Environment) : List Term → List Environment
  | [] => []
  | t :: ts => places env t ++ placesAll env ts

/-- The environments that a default makes for rules inside it. -/
def placesDefault (env : Environment) : Option Term → List Environment
  | none => []
  | some t => places env t

/-- The environments that the rules of a table make for rules inside them. -/
def placesTable (env : Environment) : Table Term → List Environment
  | ⟨entries⟩ => placesEntries env entries

/-- The environments that the rules among some entries make for rules inside them.  The padding rule is no place
for rules. -/
def placesEntries (env : Environment) : List (String × Term) → List Environment
  | [] => []
  | (name, t) :: entries => (if name = paddingRule then [] else places env t) ++ placesEntries env entries
end

end Term

/-- The environments of all rules of a grammar, local ones included. -/
def Grammar.places (g : Grammar) : List Environment :=
  [.rules g] :: Term.placesTable [.rules g] g

end GrammarKit
