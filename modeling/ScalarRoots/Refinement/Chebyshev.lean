import ScalarRoots.Refinement.Newton

/-! # Chebyshev's method

A Newton step is corrected by the curvature: from `x` the method goes to
`x - f / f' - f² f'' / (2 f'³)`.  When the Newton step alone is below the
tolerance, the point it leads to is accepted without a look at its residual.
-/

namespace ScalarRoots.Chebyshev

/-- The location that a Newton step at `p` leads to after the correction. -/
def corrected (p : Point Float) (newton : NewtonStep) (curvature : Float) : Float :=
  (p.x - newton.step)
    - 0.5 * p.y * p.y * curvature / (newton.slope * newton.slope * newton.slope)

/-- Goes to the corrected location. -/
def step (f df d2f : Float → Float) (t : Tolerance) (number : Nat) (s : OnePoint) :
    Run RefineError (Advance OnePoint) := do
  let newton ← newtonStep df s.current
  let curvature ← evaluate .curvature d2f s.current.x
  let x := corrected s.current newton curvature
  if !x.isFinite then
    throw (.correctedStep s.current.x)
  let next ← evaluatePoint f x
  if t.meets newton.step then
    log (.smallStep number next)
    return .accepted (s.moveTo next)
  else
    log (.iterate .chebyshev number next)
    return .moved (s.moveTo next)

/-- The scheme of Chebyshev's method. -/
def scheme (f df d2f : Float → Float) (t : Tolerance) : Scheme OnePoint :=
  OnePoint.scheme .chebyshev t (step f df d2f t)

/-- Refines `x₀` to a root of `f`, given its first two derivatives. -/
def refine (f df d2f : Float → Float) (settings : Settings) (x₀ : Float) :
    Run RefineError Report :=
  ScalarRoots.refine (scheme f df d2f settings.tolerance) settings (OnePoint.start f x₀)

end ScalarRoots.Chebyshev
