import ScalarRoots.Refinement.OnePoint

/-! # Newton's method

A step goes to the zero of the tangent: from `x` to `x - f(x) / f'(x)`.

Main statements:

* `outcome_newtonStep`   a Newton step is the quotient of value and slope, both finite
-/

namespace ScalarRoots

/-- A Newton step: the slope, and what to subtract from the location. -/
structure NewtonStep where
  slope : Float
  step : Float
deriving Repr

/-- The Newton step at a point. -/
def newtonStep (df : Float → Float) (p : Point Float) : Run RefineError NewtonStep := do
  let slope ← evaluate .slope df p.x
  let step := p.y / slope
  if step.isFinite then
    return ⟨slope, step⟩
  else
    throw (.newtonStep p.x slope)

/-- A Newton step needs a finite slope and a finite ratio, and the slope is looked at first. -/
theorem outcome_newtonStep (df : Float → Float) (p : Point Float) :
    (newtonStep df p).outcome =
      if (df p.x).isFinite then
        if (p.y / df p.x).isFinite then
          .ok ⟨df p.x, p.y / df p.x⟩
        else
          .error (.newtonStep p.x (df p.x))
      else
        .error (.notFinite .slope p.x (df p.x)) := by
  by_cases h : (df p.x).isFinite = true
  · by_cases h' : (p.y / df p.x).isFinite = true <;>
      simp [newtonStep, outcome_evaluate, h, h', Except.bind]
  · simp [newtonStep, outcome_evaluate, h, Except.bind]

namespace Newton

/-- Goes to the zero of the tangent. -/
def step (f df : Float → Float) (number : Nat) (s : OnePoint) :
    Run RefineError (Advance OnePoint) := do
  let newton ← newtonStep df s.current
  let next ← evaluatePoint f (s.current.x - newton.step)
  log (.iterate .newton number next)
  return .moved (s.moveTo next)

/-- The scheme of Newton's method. -/
def scheme (f df : Float → Float) (t : Tolerance) : Scheme OnePoint :=
  OnePoint.scheme .newton t (step f df)

/-- Refines `x₀` to a root of `f`, given its derivative `df`. -/
def refine (f df : Float → Float) (settings : Settings) (x₀ : Float) : Run RefineError Report :=
  ScalarRoots.refine (scheme f df settings.tolerance) settings (OnePoint.start f x₀)

end Newton

end ScalarRoots
