import ScalarRoots.Run

/-! # Why a refinement fails

Each way to fail is a constructor that carries the evidence: where it happened
and the numbers that stood in the way.  `RefineError.message` words it.

A function is never evaluated but through `evaluate`, which counts the evaluation
before it makes it and insists on a finite result.

Main statements:

* `outcome_evaluate`, `transcript_evaluate`, `evals_evaluate`   what an evaluation gives,
  records and counts
* `outcome_evaluatePoint`, `transcript_evaluatePoint`   the same for a point of the graph
-/

namespace ScalarRoots

/-- The cause of a failed refinement. -/
inductive RefineError where
  /-- The start is not finite. -/
  | invalidStart (x₀ : Float)
  /-- The two starts are not finite or not distinct. -/
  | invalidPair (x₀ x₁ : Float)
  /-- One of three starts is not finite. -/
  | invalidTriple (x₀ x₁ x₂ : Float)
  /-- The function or a derivative is not finite at `x`. -/
  | notFinite (quantity : Quantity) (x y : Float)
  /-- The Newton step at `x`, with the given slope there, is not finite. -/
  | newtonStep (x slope : Float)
  /-- A residual divided by the slope at `x` is not finite. -/
  | vanishingSlope (x slope : Float)
  /-- The corrected Newton step from `x` leaves the finite numbers. -/
  | correctedStep (x : Float)
  /-- The line through two points has no finite zero. -/
  | degenerateSecant (x₀ x₁ : Float)
  /-- The parabola around `x` has no finite zero to step to. -/
  | parabolaStep (x a b c : Float)
  /-- A batch still has singular systems after all its restarts. -/
  | restartsExhausted (restarts : Nat)
deriving DecidableEq, Repr

namespace RefineError

open Decimal (plain pointed)

/-- The text of the error. -/
def message : RefineError → String
  | invalidStart x₀ => s!"invalid initial guess: x0={plain.text x₀} must be finite"
  | invalidPair _ _ => "invalid initial guesses: x0 and x1 must be finite and distinct"
  | invalidTriple x₀ x₁ x₂ =>
    s!"invalid initial guesses: [{pointed.text x₀}, {pointed.text x₁}, {pointed.text x₂}] must be finite"
  | notFinite .value x y => s!"function non-finite at x={plain.text x}, f(x)={plain.text y}"
  | notFinite .slope x y => s!"derivative non-finite at x={plain.text x}, f'(x)={plain.text y}"
  | notFinite .curvature x y =>
    s!"second derivative non-finite at x={plain.text x}, f''(x)={plain.text y}"
  | newtonStep x slope =>
    s!"step non-finite from vanishing derivative at x={plain.text x}, f'(x)={plain.text slope}"
  | vanishingSlope x slope =>
    s!"step non-finite from vanishing derivative at x={plain.text x}, f'={plain.text slope}"
  | correctedStep x => s!"corrected step non-finite at x={plain.text x}"
  | degenerateSecant x₀ x₁ =>
    s!"degenerate secant at x0={plain.text x₀}, x1={plain.text x₁}: f(x1) - f(x0) = 0"
  | parabolaStep x a b c =>
    s!"step non-finite at x={plain.text x}: parabola "
      ++ s!"a={plain.text a}, b={plain.text b}, c={plain.text c} has no usable zero"
  | restartsExhausted restarts =>
    s!"failed to converge: degenerate configuration persisted after {restarts} restarts"

end RefineError

/-- Counts an evaluation, makes it, and insists on a finite result. -/
def evaluate (quantity : Quantity) (g : Float → Float) (x : Float) : Run RefineError Float := do
  -- counted first, so an evaluation that fails is counted too
  Run.tick
  let y ← probe quantity g x
  if y.isFinite then
    return y
  else
    throw (.notFinite quantity x y)

/-- Evaluates the target function and gives the point of its graph. -/
def evaluatePoint (f : Float → Float) (x : Float) : Run RefineError (Point Float) := do
  return ⟨x, ← evaluate .value f x⟩

/-- An evaluation succeeds with a finite value and fails with any other. -/
theorem outcome_evaluate (q : Quantity) (g : Float → Float) (x : Float) :
    (evaluate q g x).outcome =
      if (g x).isFinite then .ok (g x) else .error (.notFinite q x (g x)) := by
  by_cases h : (g x).isFinite = true <;> simp [evaluate, h, Except.bind]

/-- It is recorded in both cases. -/
theorem transcript_evaluate (q : Quantity) (g : Float → Float) (x : Float) :
    (evaluate q g x).transcript = [.probe ⟨q, x, g x⟩] := by
  by_cases h : (g x).isFinite = true <;> simp [evaluate, h]

/-- The evaluation is counted, whether its result is finite or not. -/
theorem evals_evaluate (q : Quantity) (g : Float → Float) (x : Float) :
    (evaluate q g x).evals = 1 := by
  show 1 + (0 + (if (g x).isFinite then pure (g x) else throw _ : Run RefineError Float).evals) = 1
  split <;> rfl

/-- The same for a point of the graph, whose value is that of the target function. -/
theorem outcome_evaluatePoint (f : Float → Float) (x : Float) :
    (evaluatePoint f x).outcome =
      if (f x).isFinite then .ok ⟨x, f x⟩ else .error (.notFinite .value x (f x)) := by
  by_cases h : (f x).isFinite = true <;> simp [evaluatePoint, outcome_evaluate, h, Except.map]

/-- A point of the graph takes one evaluation, of the target function. -/
theorem transcript_evaluatePoint (f : Float → Float) (x : Float) :
    (evaluatePoint f x).transcript = [.probe ⟨.value, x, f x⟩] := by
  simp [evaluatePoint, transcript_evaluate]

end ScalarRoots
