import ScalarRoots.Offsets
import ScalarRoots.Refinement.Iteration

/-! # Iterations from two points

The secant and the false position iteration both go to the zero of the line
through two points.  They share their state, their start, the tests on residual
and step, and the formula for that zero; they differ in which of the two points
they keep.

Main statements:

* `intercept_eq_some`    an intercept is finite, and the values at the points differ
* `criterion?_eq_none`   an iteration goes on while neither residual nor step is below the tolerance
-/

namespace ScalarRoots

/-- Settings of a method that needs a second start. -/
structure TwoPointSettings extends Settings where
  /-- Where the second start lies when only one is given. -/
  offsets : ValidOffsets := .default

/-- Two points, the newest last. -/
structure TwoPoint where
  older : Point Float
  newer : Point Float
deriving Repr

namespace TwoPoint

/-- The state at the start: two distinct finite locations. -/
def start (f : Float → Float) (x₀ x₁ : Float) : Run RefineError TwoPoint := do
  if x₀.isFinite && x₁.isFinite && x₀ != x₁ then
    let older ← evaluatePoint f x₀
    let newer ← evaluatePoint f x₁
    return ⟨older, newer⟩
  else
    throw (.invalidPair x₀ x₁)

/-- The distance between the two points. -/
def gap (s : TwoPoint) : Float := s.newer.x - s.older.x

/-- Small residuals end the iteration, and so do small steps. -/
def criterion? (t : Tolerance) (s : TwoPoint) : Option Criterion :=
  if t.meets s.newer.y then some .residual
  else if t.meets s.gap then some .step
  else none

/-- An iteration goes on while neither the residual nor the distance is below the tolerance. -/
theorem criterion?_eq_none {t : Tolerance} {s : TwoPoint} :
    s.criterion? t = none ↔ ¬ s.newer.residual < t.bound ∧ ¬ s.gap.abs < t.bound := by
  unfold criterion? Point.residual
  simp only [← Tolerance.meets_eq_true]
  split
  · simp_all
  · split <;> simp_all

/-- The zero of the line through the two points, if there is a finite one. -/
def intercept (s : TwoPoint) : Option Float :=
  let rise := s.newer.y - s.older.y
  let x := s.newer.x - s.newer.y * s.gap / rise
  -- equal values have no zero to go to, and a zero that overflows is none either
  if rise == 0 then none
  else if x.isFinite then some x
  else none

/-- An intercept is finite and comes from values that differ. -/
theorem intercept_eq_some {s : TwoPoint} {x : Float} (h : s.intercept = some x) :
    x.isFinite = true ∧ (s.newer.y - s.older.y == 0) = false ∧
      x = s.newer.x - s.newer.y * s.gap / (s.newer.y - s.older.y) := by
  simp only [intercept] at h
  split at h
  · cases h
  · split at h
    · cases h
      exact ⟨‹_›, Bool.eq_false_iff.2 ‹_›, rfl⟩
    · cases h

/-- The point of the graph above the intercept. -/
def interceptPoint (f : Float → Float) (s : TwoPoint) : Run RefineError (Point Float) :=
  match s.intercept with
  | some x => evaluatePoint f x
  | none => throw (.degenerateSecant s.older.x s.newer.x)

end TwoPoint

end ScalarRoots
