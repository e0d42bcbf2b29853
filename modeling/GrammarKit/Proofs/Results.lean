/-
Module: GrammarKit.Proofs.Results
Purpose: Computations that may fail, taken apart: what a success of the whole says about its parts, and
  which errors the whole can have if those of its parts are known.
Main exports: Except.bind_eq_ok, Except.map_eq_ok, Except.mapError_eq_ok, Except.FailsOnly, Except.Meets
-/
import Mathlib.Tactic.Common

namespace GrammarKit

variable {ε ε' α β : Type}

/-- A computation in two steps succeeds if both steps do. -/
theorem Except.bind_eq_ok {x : Except ε α} {f : α → Except ε β} {b : β} (whole : x >>= f = .ok b) :
    ∃ a, x = .ok a ∧ f a = .ok b :=
  match x, whole with
  | .ok a, second => ⟨a, rfl, second⟩

theorem Except.map_eq_ok {x : Except ε α} {f : α → β} {b : β} (whole : x.map f = .ok b) :
    ∃ a, x = .ok a ∧ f a = b :=
  match x, whole with
  | .ok a, same => ⟨a, rfl, Except.ok.inj same⟩

/-- A computation whose errors are translated succeeds as it did before. -/
theorem Except.mapError_eq_ok {x : Except ε α} {f : ε → ε'} {a : α} (whole : x.mapError f = .ok a) :
    x = .ok a :=
  match x, whole with
  | .ok _, same => congrArg Except.ok (Except.ok.inj same)

/-- A computation whose result passes a test succeeds. -/
theorem Except.exists_of_any {x : Except ε α} {test : α → Bool} (passes : x.toOption.any test = true) :
    ∃ a, x = .ok a ∧ test a = true :=
  match x, passes with
  | .ok a, passes => ⟨a, rfl, passes⟩

/-- A computation that can fail with errors of one kind only. -/
def Except.FailsOnly (P : ε → Prop) (x : Except ε α) : Prop :=
  ∀ e, x = .error e → P e

namespace Except.FailsOnly

variable {P : ε → Prop} {x : Except ε α}

theorem ok (a : α) : FailsOnly P (.ok a : Except ε α) :=
  nofun

theorem error {e : ε} (h : P e) : FailsOnly P (.error e : Except ε α) := by
  intro e' failed
  cases failed
  exact h

theorem bind {f : α → Except ε β} (first : FailsOnly P x) (second : ∀ a, x = .ok a → FailsOnly P (f a)) :
    FailsOnly P (x >>= f) := by
  intro e failed
  cases x with
  | error e' =>
    cases failed
    exact first e rfl
  | ok a => exact second a rfl e failed

theorem mono {Q : ε → Prop} (h : FailsOnly P x) (weaker : ∀ {e}, P e → Q e) : FailsOnly Q x :=
  fun e failed => weaker (h e failed)

theorem map (h : FailsOnly P x) (f : α → β) : FailsOnly P (x.map f) := by
  intro e failed
  cases x with
  | error e' =>
    cases failed
    exact h e rfl
  | ok a => cases failed

end Except.FailsOnly

/-- What a computation gives where it succeeds, and its errors where it fails. -/
inductive Except.Meets (post : α → Prop) (failure : ε → Prop) : Except ε α → Prop
  | ok {a : α} (here : post a) : Meets post failure (.ok a)
  | error {e : ε} (here : failure e) : Meets post failure (.error e)

theorem Except.FailsOnly.meets {P : ε → Prop} {post : α → Prop} {x : Except ε α} (h : FailsOnly P x)
    (gives : ∀ a, x = .ok a → post a) : Meets post P x := by
  cases x with
  | ok a => exact .ok (gives a rfl)
  | error e => exact .error (h e rfl)

namespace Except.Meets

variable {post : α → Prop} {failure : ε → Prop} {x : Except ε α}

theorem bind (h : Meets post failure x) {post' : β → Prop} {f : α → Except ε β}
    (goesOn : ∀ a, post a → Meets post' failure (f a)) : Meets post' failure (x >>= f) := by
  cases h with
  | ok here => exact goesOn _ here
  | error here => exact .error here

theorem mono (h : Meets post failure x) {post' : α → Prop} (weaker : ∀ a, post a → post' a) :
    Meets post' failure x := by
  cases h with
  | ok here => exact .ok (weaker _ here)
  | error here => exact .error here

theorem bind_failsOnly (h : Meets post failure x) {f : α → Except ε β}
    (goesOn : ∀ a, post a → FailsOnly failure (f a)) : FailsOnly failure (x >>= f) := by
  cases h with
  | ok here => exact goesOn _ here
  | error here => exact .error here

end Except.Meets

end GrammarKit
