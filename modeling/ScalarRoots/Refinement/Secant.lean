import ScalarRoots.Refinement.TwoPoint

/-! # The secant method

Each step goes to the zero of the line through the two newest points.
-/

namespace ScalarRoots.Secant

/-- Goes to the intercept and keeps the newer point. -/
def step (f : Float → Float) (number : Nat) (s : TwoPoint) :
    Run RefineError (Advance TwoPoint) := do
  let next ← s.interceptPoint f
  log (.iterate .secant number next)
  return .moved ⟨s.newer, next⟩

/-- The scheme of the secant method. -/
def scheme (f : Float → Float) (t : Tolerance) : Scheme TwoPoint where
  algorithm := .secant
  newest := TwoPoint.newer
  stencil s := .pair s.older.x s.newer.x
  criterion? := TwoPoint.criterion? t
  step := step f

/-- Refines a root of `f` from two starts. -/
def refine (f : Float → Float) (settings : Settings) (x₀ x₁ : Float) : Run RefineError Report :=
  ScalarRoots.refine (scheme f settings.tolerance) settings (TwoPoint.start f x₀ x₁)

end ScalarRoots.Secant
