/-
  Components with a state of their own that answer one call at a time.

  A `Mealy` machine is a component behind an interface: it starts in a state, and a call
  changes the state and returns an answer. `out pre x` is its answer to the call `x` after
  the calls `pre`, so properties of an interface are properties of `out` alone and quantify
  over all implementations.

  * `after_append`, `after_concat`: the state after a sequence of calls.
  * `afterFrom_invariant`: what every call keeps holds after any calls.
-/
import Mathlib.Data.List.Basic

namespace Veilmesh.Lib

/-- A component with states in `σ` that answers calls in `ι` with values in `ο`. -/
structure Mealy (σ ι ο : Type) where
  init : σ
  step : σ → ι → ο × σ

namespace Mealy

variable {σ ι ο : Type} (m : Mealy σ ι ο)

/-- The state after calls from a given state. -/
def afterFrom (s : σ) (xs : List ι) : σ := xs.foldl (fun s x => (m.step s x).2) s

/-- The state after calls. -/
def after (xs : List ι) : σ := m.afterFrom m.init xs

/-- The answers to calls from a given state. -/
def answersFrom : σ → List ι → List ο
  | _, [] => []
  | s, x :: xs => (m.step s x).1 :: answersFrom (m.step s x).2 xs

/-- The answer to `x` after the calls `pre`. -/
def out (pre : List ι) (x : ι) : ο := (m.step (m.after pre) x).1

theorem after_append (xs ys : List ι) : m.after (xs ++ ys) = m.afterFrom (m.after xs) ys :=
  List.foldl_append

theorem after_concat (xs : List ι) (x : ι) : m.after (xs ++ [x]) = (m.step (m.after xs) x).2 := by
  rw [after_append]
  rfl

theorem afterFrom_cons (s : σ) (x : ι) (xs : List ι) :
    m.afterFrom s (x :: xs) = m.afterFrom (m.step s x).2 xs := rfl

/-- What every call keeps holds after any calls. -/
theorem afterFrom_invariant {I : σ → Prop} (h : ∀ s x, I s → I (m.step s x).2) {s : σ}
    (hs : I s) (xs : List ι) : I (m.afterFrom s xs) := by
  induction xs generalizing s with
  | nil => exact hs
  | cons x xs ih => exact ih (h s x hs)

end Mealy

end Veilmesh.Lib
