import ScalarRoots.Refinement.OnePoint

/-! # Multipoint iteration

Third order without a second derivative, for one more evaluation in each step.
There are two rules.  One takes the slope at half a Newton step and goes a whole
Newton step with it; the other goes a Newton step and then corrects it by the
residual found there, divided by the slope it already has.
-/

namespace ScalarRoots

namespace Multipoint

/-- A residual divided by the slope at `x`. -/
def checkedRatio (y x slope : Float) : Run RefineError Float :=
  let ratio := y / slope
  if ratio.isFinite then pure ratio else throw (.vanishingSlope x slope)

/-- The location that a rule leads to. -/
def nextLocation (f df : Float → Float) (rule : MultipointRule) (p : Point Float) :
    Run RefineError Float := do
  let slope ← evaluate .slope df p.x
  let newton ← checkedRatio p.y p.x slope
  match rule with
  | .midpointDerivative =>
    let half := p.x - 0.5 * newton
    let slope ← evaluate .slope df half
    let step ← checkedRatio p.y half slope
    return p.x - step
  | .predictorCorrector =>
    let predicted ← evaluatePoint f (p.x - newton)
    let correction ← checkedRatio predicted.y p.x slope
    return predicted.x - correction

/-- Goes to the location that the rule leads to. -/
def step (f df : Float → Float) (rule : MultipointRule) (number : Nat) (s : OnePoint) :
    Run RefineError (Advance OnePoint) := do
  let x ← nextLocation f df rule s.current
  let next ← evaluatePoint f x
  log (.multipointIterate rule number next)
  return .moved (s.moveTo next)

/-- The scheme of the multipoint iteration. -/
def scheme (f df : Float → Float) (rule : MultipointRule) (t : Tolerance) : Scheme OnePoint :=
  OnePoint.scheme .multipoint t (step f df rule)

end Multipoint

/-- Settings of the multipoint iteration. -/
structure MultipointSettings extends Settings where
  /-- Which of the two rules to go by. -/
  rule : MultipointRule := .midpointDerivative

/-- Refines `x₀` to a root of `f`, given its derivative `df`. -/
def Multipoint.refine (f df : Float → Float) (settings : MultipointSettings) (x₀ : Float) :
    Run RefineError Report :=
  ScalarRoots.refine (scheme f df settings.rule settings.tolerance) settings.toSettings
    (OnePoint.start f x₀)

end ScalarRoots
