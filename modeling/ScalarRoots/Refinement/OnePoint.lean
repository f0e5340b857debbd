import ScalarRoots.Refinement.Iteration

/-! # Iterations from one point

Newton, Chebyshev and multipoint iterations make the next point from the newest
one alone.  They share their state, their start and the test on the residual, and
differ in the step.

Main statements:

* `criterion?_eq_none`   an iteration goes on while its residual is not below the tolerance
-/

namespace ScalarRoots

/-- The newest point of an iteration and the location it was made from. -/
structure OnePoint where
  previous : Float
  current : Point Float
deriving Repr

namespace OnePoint

/-- The state at the start: a finite location that counts as its own predecessor. -/
def start (f : Float → Float) (x₀ : Float) : Run RefineError OnePoint := do
  if x₀.isFinite then
    return ⟨x₀, ← evaluatePoint f x₀⟩
  else
    throw (.invalidStart x₀)

/-- The next point is made from one location. -/
def stencil (s : OnePoint) : Stencil := .single s.previous

/-- Small residuals end the iteration. -/
def criterion? (t : Tolerance) (s : OnePoint) : Option Criterion :=
  if t.meets s.current.y then some .residual else none

/-- The state after a step from `s` to `next`. -/
def moveTo (s : OnePoint) (next : Point Float) : OnePoint := ⟨s.current.x, next⟩

/-- An iteration goes on while the residual is not below the tolerance. -/
theorem criterion?_eq_none {t : Tolerance} {s : OnePoint} :
    s.criterion? t = none ↔ ¬ s.current.residual < t.bound := by
  unfold criterion?
  split
  next h => exact ⟨nofun, fun hn => absurd (Tolerance.meets_eq_true.1 h) hn⟩
  next h => exact ⟨fun _ hl => h (Tolerance.meets_eq_true.2 hl), fun _ => rfl⟩

/-- The scheme with the given step. -/
def scheme (a : Algorithm) (t : Tolerance)
    (step : Nat → OnePoint → Run RefineError (Advance OnePoint)) : Scheme OnePoint where
  algorithm := a
  newest := current
  stencil := stencil
  criterion? := criterion? t
  step := step

end OnePoint

end ScalarRoots
