import ScalarRoots.Offsets
import ScalarRoots.Refinement.Iteration
import ScalarRoots.Refinement.Parabola

/-! # Muller's method

Each step fits a parabola through the three newest points and goes to its zero
nearest to the newest one.  A parabola without zeros is treated as if the root of
its discriminant were a small constant.  Three points that do not determine a
parabola end the iteration.

Main statements:

* `parabola?_eq_none`   which points do not determine a parabola
* `value_discriminantRoot`   the root that a step is made with
-/

namespace ScalarRoots

/-- Settings of Muller's method. -/
structure MullerSettings extends Settings where
  /-- Where the second and third start lie when only one is given. -/
  offsets : ValidOffsets := .default
  /-- How often a batch may start again after a singular system. -/
  restarts : Nat := 8

/-- Three points, the newest last. -/
structure ThreePoint where
  oldest : Point Float
  middle : Point Float
  newest : Point Float
deriving Repr

namespace Muller

/-- Stands in for the root of a negative discriminant. -/
def discriminantFallback : Float := 0.1

/-- The state at the start: three finite locations. -/
def start (f : Float → Float) (x₀ x₁ x₂ : Float) : Run RefineError ThreePoint := do
  if x₀.isFinite && x₁.isFinite && x₂.isFinite then
    let oldest ← evaluatePoint f x₀
    let middle ← evaluatePoint f x₁
    let newest ← evaluatePoint f x₂
    return ⟨oldest, middle, newest⟩
  else
    throw (.invalidTriple x₀ x₁ x₂)

/-- The parabola through the three points, unless its determinant is zero or not
    finite. -/
def parabola? (s : ThreePoint) : Option (Parabola Float) :=
  let det := Parabola.determinant s.oldest.x s.middle.x s.newest.x
  if det == 0 || !det.isFinite then none
  else some (Parabola.through s.oldest s.middle s.newest)

/-- There is no parabola where the determinant is zero or not finite. -/
theorem parabola?_eq_none {s : ThreePoint} :
    parabola? s = none ↔
      (Parabola.determinant s.oldest.x s.middle.x s.newest.x == 0) = true ∨
        (Parabola.determinant s.oldest.x s.middle.x s.newest.x).isFinite = false := by
  simp only [parabola?]
  split <;> simp_all

/-- The root of a discriminant, or the constant that replaces it. -/
def discriminantRoot (discriminant : Float) : Traced Event Float := do
  if discriminant < 0 then
    log (.negativeDiscriminant discriminant discriminantFallback)
    return discriminantFallback
  else
    return discriminant.sqrt

/-- The root that is used, without the warning. -/
@[simp] theorem value_discriminantRoot (d : Float) :
    (discriminantRoot d).value = if d < 0 then discriminantFallback else d.sqrt := by
  unfold discriminantRoot
  split <;> rfl

/-- Goes to the zero of the parabola. -/
def step (f : Float → Float) (number : Nat) (s : ThreePoint) :
    Run RefineError (Advance ThreePoint) := do
  match parabola? s with
  | none =>
    log (.singularSystem s.oldest.x s.middle.x s.newest.x)
    -- a restart of the batch may help, so this is no error
    return .stuck
  | some q =>
    let root ← discriminantRoot q.discriminant
    let x := s.newest.x + q.nearestZero root
    if !x.isFinite then
      throw (.parabolaStep s.newest.x q.a q.b q.c)
    let next ← evaluatePoint f x
    log (.iterate .muller number next)
    -- the oldest point is the one that is given up
    return .moved ⟨s.middle, s.newest, next⟩

/-- Small residuals end the iteration. -/
def criterion? (t : Tolerance) (s : ThreePoint) : Option Criterion :=
  if t.meets s.newest.y then some .residual else none

/-- The scheme of Muller's method. -/
def scheme (f : Float → Float) (t : Tolerance) : Scheme ThreePoint where
  algorithm := .muller
  newest := ThreePoint.newest
  stencil s := .triple s.oldest.x s.middle.x s.newest.x
  criterion? := criterion? t
  step := step f

/-- Refines a root of `f` from three starts. -/
def refine (f : Float → Float) (settings : Settings) (x₀ x₁ x₂ : Float) :
    Run RefineError Report :=
  ScalarRoots.refine (scheme f settings.tolerance) settings (start f x₀ x₁ x₂)

end Muller

end ScalarRoots
