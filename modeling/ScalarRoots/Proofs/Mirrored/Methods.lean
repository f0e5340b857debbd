import ScalarRoots.Proofs.Mirrored.Runs
import ScalarRoots.Refinement.Chebyshev
import ScalarRoots.Refinement.FalsePosition
import ScalarRoots.Refinement.Multipoint
import ScalarRoots.Refinement.Newton
import ScalarRoots.Refinement.Secant

/-!
# Methods on the other side of the axis

Bisection, and every refinement but Muller's method, treats the two signs alike.  On `-f`, with
derivatives of the other sign, it looks at the same locations in the same order and takes the
same decisions, so that its run is the mirror image of its run on `f`: the transcript, and the
answer or the error.

A method is taken apart into its tests, its steps and its start.  Products and quotients of
values keep the locations where they are, since the signs cancel.  The difference of two values
is the one place where they might not, as a difference that is zero has no sign to change; but
where a secant has no rise, it has no intercept on either side.

## Key results

- `Scheme.Mirrors`: a method that does on one side what another does on the other
- `Scheme.Mirrors.iterate`: so do their iterations
- `Newton.mirrors` and its namesakes: the methods mirror themselves
- `findApproximations_mirrored`: so does bisection
- `mirrored_methods`: all of them, on `f` and on `-f`
-/

namespace ScalarRoots

open Binary64

/-! ## Iterations -/

variable {σ : Type}

/-- What a step does, on states that are seen in another way. -/
def Advance.map (g : σ → σ) : Advance σ → Advance σ
  | moved next => moved (g next)
  | accepted next => accepted (g next)
  | stuck => stuck

/-- The same end with the value at the root of the other sign. -/
def Finish.mirrored (fin : Finish) : Finish := { fin with root := fin.root.mirrored }

/-- At the mirror image of every state the second method does what the first one does at the
    state, on the other side of the axis. -/
structure Scheme.Mirrors (m m' : Scheme σ) (image : σ → σ) : Prop where
  algorithm_eq : m'.algorithm = m.algorithm
  newest_eq : ∀ s, m'.newest (image s) = (m.newest s).mirrored
  stencil_eq : ∀ s, m'.stencil (image s) = m.stencil s
  criterion?_eq : ∀ s, m'.criterion? (image s) = m.criterion? s
  step_eq : ∀ number s, m'.step number (image s) =
    (m.step number s).mirrored RefineError.mirrored (Advance.map image)

namespace Scheme.Mirrors

variable {m m' : Scheme σ} {image : σ → σ}

/-- Where the test is met, it is met on both sides. -/
private theorem iterate_met (hm : m.Mirrors m' image) {s : σ} {c : Criterion}
    (hc : m.criterion? s = some c) (start : Stencil) (left done : Nat) (best : Point Float) :
    ScalarRoots.iterate m' start left done best.mirrored (image s) =
      (ScalarRoots.iterate m start left done best s).mirrored RefineError.mirrored
        Finish.mirrored := by
  rw [iterate_of_met hc, iterate_of_met ((hm.criterion?_eq s).trans hc), hm.newest_eq,
    hm.stencil_eq]
  rfl

/-- Iterations of methods that mirror each other do, too. -/
theorem iterate (hm : m.Mirrors m' image) (start : Stencil) (left done : Nat)
    (best : Point Float) (s : σ) :
    ScalarRoots.iterate m' start left done best.mirrored (image s) =
      (ScalarRoots.iterate m start left done best s).mirrored RefineError.mirrored
        Finish.mirrored := by
  -- Induction on the steps left; the test on the state decides as on the other side.
  induction left generalizing done best s with
  | zero =>
    cases hc : m.criterion? s with
    | some c => exact hm.iterate_met hc ..
    | none =>
      rw [iterate_exhausted hc, iterate_exhausted ((hm.criterion?_eq s).trans hc),
        hm.stencil_eq, hm.algorithm_eq]
      exact Run.mirrored_bind (Run.mirrored_log _ (.noConvergence ..)) fun _ => rfl
  | succ left ih =>
    cases hc : m.criterion? s with
    | some c => exact hm.iterate_met hc ..
    | none =>
      rw [iterate_succ hc, iterate_succ ((hm.criterion?_eq s).trans hc)]
      refine Run.mirrored_bind (hm.step_eq (done + 1) s) fun advance => ?_
      cases advance with
      | moved next =>
        show ScalarRoots.iterate m' start left (done + 1)
          (best.mirrored.better (m'.newest (image next))) (image next) = _
        rw [hm.newest_eq, Point.better_mirrored]
        exact ih (done + 1) _ next
      | accepted next =>
        show pure (Finish.mk (m'.newest (image next)) _ _ _ (m'.stencil (image next))) = _
        rw [hm.newest_eq, hm.stencil_eq]
        rfl
      | stuck =>
        show pure (Finish.mk (m'.newest (image s)) _ _ _ (m'.stencil (image s))) = _
        rw [hm.newest_eq, hm.stencil_eq]
        rfl

/-- And so do refinements that start on either side. -/
theorem refine (hm : m.Mirrors m' image) (settings : Settings) {start start' : Run RefineError σ}
    (hstart : start' = start.mirrored RefineError.mirrored image) :
    ScalarRoots.refine m' settings start' =
      (ScalarRoots.refine m settings start).mirrored RefineError.mirrored Report.mirrored := by
  unfold ScalarRoots.refine
  simp only [hm.algorithm_eq]
  rw [Run.mirrored_bind (h := Finish.mirrored) hstart fun s => ?_]
  · exact Run.mirrored_counted fun _ _ => rfl
  · rw [hm.stencil_eq, hm.newest_eq]
    exact hm.iterate ..

end Scheme.Mirrors

/-! ## Methods from one point -/

namespace OnePoint

/-- The same locations with the value of the other sign. -/
def mirrored (s : OnePoint) : OnePoint := ⟨s.previous, s.current.mirrored⟩

/-- A state and its mirror image meet the same tolerance. -/
theorem criterion?_mirrored (t : Tolerance) (s : OnePoint) :
    s.mirrored.criterion? t = s.criterion? t := by
  show (if decide ((-s.current.y).abs < t.bound) = true then _ else _) = _
  rw [Binary64.abs_neg]
  rfl

/-- A start on the other side is accepted when it is on this side. -/
theorem start_mirrored (f : Float → Float) (x₀ : Float) :
    start (-f) x₀ = (start f x₀).mirrored RefineError.mirrored mirrored := by
  unfold start
  exact Run.mirrored_ite (Run.mirrored_bind (evaluatePoint_mirrored f x₀) fun _ => rfl) rfl

/-- Only the step has to be looked at. -/
theorem mirrors_scheme (a : Algorithm) (t : Tolerance)
    {step step' : Nat → OnePoint → Run RefineError (Advance OnePoint)}
    (hstep : ∀ number s, step' number s.mirrored =
      (step number s).mirrored RefineError.mirrored (Advance.map mirrored)) :
    (scheme a t step).Mirrors (scheme a t step') mirrored where
  algorithm_eq := rfl
  newest_eq _ := rfl
  stencil_eq _ := rfl
  criterion?_eq := criterion?_mirrored t
  step_eq := hstep

end OnePoint

/-- The same step, with a slope of the other sign. -/
def NewtonStep.mirrored (newton : NewtonStep) : NewtonStep := ⟨-newton.slope, newton.step⟩

/-- The Newton step goes the same way on both sides. -/
theorem newtonStep_mirrored (df : Float → Float) (p : Point Float) :
    newtonStep (-df) p.mirrored =
      (newtonStep df p).mirrored RefineError.mirrored NewtonStep.mirrored := by
  refine Run.mirrored_bind (evaluate_mirrored .slope df p.x) fun slope => ?_
  -- the signs of value and slope cancel
  show (if (-p.y / -slope).isFinite = true then
    (pure ⟨-slope, -p.y / -slope⟩ : Run RefineError NewtonStep) else throw _) = _
  rw [Binary64.neg_div_neg]
  exact Run.mirrored_ite rfl rfl

/-- Newton's method mirrors itself. -/
theorem Newton.mirrors (f df : Float → Float) (t : Tolerance) :
    (scheme f df t).Mirrors (scheme (-f) (-df) t) OnePoint.mirrored :=
  OnePoint.mirrors_scheme _ t fun number s =>
    Run.mirrored_bind (newtonStep_mirrored df s.current) fun newton =>
      Run.mirrored_bind (evaluatePoint_mirrored f (s.current.x - newton.step)) fun next =>
        Run.mirrored_bind (Run.mirrored_log _ (.iterate .newton number next)) fun _ => rfl

namespace Chebyshev

/-- The correction has as many signs above the line as below. -/
theorem corrected_mirrored (p : Point Float) (newton : NewtonStep) (curvature : Float) :
    corrected p.mirrored newton.mirrored (-curvature) = corrected p newton curvature := by
  show p.x - newton.step -
    0.5 * -p.y * -p.y * -curvature / (-newton.slope * -newton.slope * -newton.slope) = _
  -- the numerator has three signs to change,
  have hnumerator : 0.5 * -p.y * -p.y * -curvature = -(0.5 * p.y * p.y * curvature) := by
    rw [Binary64.mul_neg 0.5, Binary64.neg_mul, Binary64.mul_neg (0.5 * p.y), Binary64.neg_neg,
      Binary64.mul_neg]
  -- and so has the denominator
  have hdenominator : -newton.slope * -newton.slope * -newton.slope =
      -(newton.slope * newton.slope * newton.slope) := by
    rw [Binary64.neg_mul newton.slope, Binary64.mul_neg newton.slope, Binary64.neg_neg,
      Binary64.mul_neg]
  rw [hnumerator, hdenominator, Binary64.neg_div_neg]
  rfl

/-- Chebyshev's method mirrors itself. -/
theorem mirrors (f df d2f : Float → Float) (t : Tolerance) :
    (scheme f df d2f t).Mirrors (scheme (-f) (-df) (-d2f) t) OnePoint.mirrored := by
  refine OnePoint.mirrors_scheme _ t fun number s => ?_
  refine Run.mirrored_bind (newtonStep_mirrored df s.current) fun newton => ?_
  refine Run.mirrored_bind (evaluate_mirrored .curvature d2f s.current.x) fun curvature => ?_
  -- the corrected location is the same, and so is the check of it
  rw [show (OnePoint.mirrored s).current = s.current.mirrored from rfl, corrected_mirrored]
  refine Run.mirrored_ite rfl ?_
  refine Run.mirrored_bind (evaluatePoint_mirrored f _) fun next => ?_
  exact Run.mirrored_ite
    (Run.mirrored_bind (Run.mirrored_log _ (.smallStep number next)) fun _ => rfl)
    (Run.mirrored_bind (Run.mirrored_log _ (.iterate .chebyshev number next)) fun _ => rfl)

end Chebyshev

namespace Multipoint

/-- The signs of a residual and of a slope cancel. -/
theorem checkedRatio_mirrored (y x slope : Float) :
    checkedRatio (-y) x (-slope) = (checkedRatio y x slope).mirrored RefineError.mirrored id := by
  show (if (-y / -slope).isFinite = true then (pure (-y / -slope) : Run RefineError Float)
    else throw _) = _
  rw [Binary64.neg_div_neg]
  exact Run.mirrored_ite rfl rfl

/-- Either rule leads to the same location. -/
theorem nextLocation_mirrored (f df : Float → Float) (rule : MultipointRule) (p : Point Float) :
    nextLocation (-f) (-df) rule p.mirrored =
      (nextLocation f df rule p).mirrored RefineError.mirrored id := by
  refine Run.mirrored_bind (evaluate_mirrored .slope df p.x) fun slope => ?_
  refine Run.mirrored_bind (checkedRatio_mirrored p.y p.x slope) fun newton => ?_
  -- the second quotient has two signs to change as well
  cases rule with
  | midpointDerivative =>
    refine Run.mirrored_bind (evaluate_mirrored .slope df _) fun slope => ?_
    exact Run.mirrored_bind (checkedRatio_mirrored p.y _ slope) fun _ => rfl
  | predictorCorrector =>
    refine Run.mirrored_bind (evaluatePoint_mirrored f _) fun predicted => ?_
    exact Run.mirrored_bind (checkedRatio_mirrored predicted.y p.x slope) fun _ => rfl

/-- The multipoint iteration mirrors itself, by either rule. -/
theorem mirrors (f df : Float → Float) (rule : MultipointRule) (t : Tolerance) :
    (scheme f df rule t).Mirrors (scheme (-f) (-df) rule t) OnePoint.mirrored :=
  OnePoint.mirrors_scheme _ t fun number s =>
    Run.mirrored_bind (nextLocation_mirrored f df rule s.current) fun x =>
      Run.mirrored_bind (evaluatePoint_mirrored f x) fun next =>
        Run.mirrored_bind (Run.mirrored_log _ (.multipointIterate rule number next)) fun _ => rfl

end Multipoint

/-! ## Methods from two points -/

namespace TwoPoint

/-- The same locations with the values of the other sign. -/
def mirrored (s : TwoPoint) : TwoPoint := ⟨s.older.mirrored, s.newer.mirrored⟩

/-- A state and its mirror image meet the same tolerance. -/
theorem criterion?_mirrored (t : Tolerance) (s : TwoPoint) :
    s.mirrored.criterion? t = s.criterion? t := by
  show (if decide ((-s.newer.y).abs < t.bound) = true then _ else _) = _
  rw [Binary64.abs_neg]
  rfl

/-- Two starts are accepted on both sides or on neither. -/
theorem start_mirrored (f : Float → Float) (x₀ x₁ : Float) :
    start (-f) x₀ x₁ = (start f x₀ x₁).mirrored RefineError.mirrored mirrored := by
  unfold start
  refine Run.mirrored_ite ?_ rfl
  refine Run.mirrored_bind (evaluatePoint_mirrored f x₀) fun older => ?_
  exact Run.mirrored_bind (evaluatePoint_mirrored f x₁) fun _ => rfl

/-- The line on the other side of the axis meets it at the same place.  Without a rise it does
    not meet it on either side. -/
theorem intercept_mirrored (s : TwoPoint) : s.mirrored.intercept = s.intercept := by
  simp only [intercept]
  show (if (-s.newer.y - -s.older.y == 0) = true then none else
    if (s.newer.x - -s.newer.y * s.gap / (-s.newer.y - -s.older.y)).isFinite = true then
      some (s.newer.x - -s.newer.y * s.gap / (-s.newer.y - -s.older.y)) else none) = _
  rw [neg_sub_neg_beq_zero]
  split
  · rfl
  · next hrise =>
    -- where there is a rise, it changes its sign with the values
    rw [Binary64.neg_sub_neg (Bool.eq_false_iff.2 hrise), Binary64.neg_mul, Binary64.neg_div_neg]

/-- The point above the intercept is the mirror image of the one below. -/
theorem interceptPoint_mirrored (f : Float → Float) (s : TwoPoint) :
    s.mirrored.interceptPoint (-f) =
      (s.interceptPoint f).mirrored RefineError.mirrored Point.mirrored := by
  unfold interceptPoint
  rw [intercept_mirrored]
  cases s.intercept with
  | some x => exact evaluatePoint_mirrored f x
  | none => rfl

end TwoPoint

/-- The secant method mirrors itself. -/
theorem Secant.mirrors (f : Float → Float) (t : Tolerance) :
    (scheme f t).Mirrors (scheme (-f) t) TwoPoint.mirrored where
  algorithm_eq := rfl
  newest_eq _ := rfl
  stencil_eq _ := rfl
  criterion?_eq := TwoPoint.criterion?_mirrored t
  step_eq number s :=
    Run.mirrored_bind (TwoPoint.interceptPoint_mirrored f s) fun next =>
      Run.mirrored_bind (Run.mirrored_log _ (.iterate .secant number next)) fun _ => rfl

namespace FalsePosition

/-- The same end of the bracket is kept. -/
theorem advance_mirrored (s : TwoPoint) (next : Point Float) :
    advance s.mirrored next.mirrored = (advance s next).mirrored := by
  have hverdict : Verdict.ofValues next.mirrored.y s.mirrored.newer.y =
      Verdict.ofValues next.y s.newer.y := Verdict.ofValues_neg ..
  -- which end is kept depends on the verdict alone
  unfold advance
  rw [hverdict]
  cases Verdict.ofValues next.y s.newer.y <;> rfl

/-- The method of false position mirrors itself. -/
theorem mirrors (f : Float → Float) (t : Tolerance) :
    (scheme f t).Mirrors (scheme (-f) t) TwoPoint.mirrored where
  algorithm_eq := rfl
  newest_eq _ := rfl
  stencil_eq _ := rfl
  criterion?_eq := TwoPoint.criterion?_mirrored t
  step_eq number s := by
    refine Run.mirrored_bind (TwoPoint.interceptPoint_mirrored f s) fun next => ?_
    simp only [advance_mirrored]
    exact Run.mirrored_bind (Run.mirrored_log _
      (.bracketIterate number (advance s next).older.x (advance s next).newer)) fun _ => rfl

end FalsePosition

/-! ## Bisection -/

namespace Span

/-- The verdict on a span is the same on both sides: it names a root where the value is zero. -/
theorem test_mirrored (f : Float → Float) (s : Span) : s.test (-f) = (s.test f).mirrored id := by
  refine Traced.mirrored_bind (probe_mirrored .value f s.lower) fun yₗ => ?_
  -- the lower end is a root on both sides or on neither
  rw [neg_beq_zero]
  refine Traced.mirrored_ite rfl ?_
  refine Traced.mirrored_bind (probe_mirrored .value f s.upper) fun yᵤ => ?_
  rw [neg_beq_zero, Verdict.ofValues_neg]
  exact Traced.mirrored_ite rfl rfl

/-- The same halves of a span survive. -/
theorem survivors_mirrored (f : Float → Float) (s : Span) :
    s.survivors (-f) = (s.survivors f).mirrored id := by
  refine Traced.mirrored_bind (test_mirrored f s.leftHalf) fun left => ?_
  refine Traced.mirrored_ite rfl ?_
  exact Traced.mirrored_bind (test_mirrored f s.rightHalf) fun _ => rfl

/-- The midpoint of a span is the same, and the value there has the other sign. -/
theorem approximate_mirrored (f : Float → Float) (digits : Nat) (s : Span) :
    s.approximate (-f) digits = (s.approximate f digits).mirrored Approximation.mirrored :=
  Traced.mirrored_bind (probe_mirrored .value f s.midpoint) fun _ => rfl

end Span

/-- One round keeps the same spans. -/
theorem bisectAll_mirrored (f : Float → Float) (spans : List Span) :
    bisectAll (-f) spans = (bisectAll f spans).mirrored id := by
  induction spans with
  | nil => rfl
  | cons s rest ih =>
    refine Traced.mirrored_bind (s.survivors_mirrored f) fun kept => ?_
    exact Traced.mirrored_bind ih fun _ => rfl

/-- Every round keeps the same spans. -/
theorem bisectRounds_mirrored (f : Float → Float) (total left : Nat) (spans : List Span) :
    bisectRounds (-f) total left spans = (bisectRounds f total left spans).mirrored id := by
  induction left generalizing spans with
  | zero => rfl
  | succ left ih =>
    -- induction on the rounds left: the next round starts from the same spans
    refine Traced.mirrored_bind (bisectAll_mirrored f spans) fun next => ?_
    exact Traced.mirrored_bind (log_mirrored (.round ..)) fun _ => ih next

/-- The last spans give mirrored approximations. -/
theorem approximateAll_mirrored (f : Float → Float) (digits : Nat) (spans : List Span) :
    approximateAll (-f) digits spans =
      (approximateAll f digits spans).mirrored (List.map Approximation.mirrored) := by
  induction spans with
  | nil => rfl
  | cons s rest ih =>
    refine Traced.mirrored_bind (s.approximate_mirrored f digits) fun a => ?_
    exact Traced.mirrored_bind ih fun _ => rfl

/-- So a whole search gives mirrored approximations. -/
theorem bracketRoots_mirrored (f : Float → Float) (digits rounds : Nat)
    (intervals : List Interval) :
    bracketRoots (-f) digits rounds intervals =
      (bracketRoots f digits rounds intervals).mirrored (List.map Approximation.mirrored) := by
  refine Traced.mirrored_bind (bisectRounds_mirrored f rounds rounds _) fun spans => ?_
  refine Traced.mirrored_bind (approximateAll_mirrored f digits spans) fun found => ?_
  rw [List.length_map]
  exact Traced.mirrored_bind (log_mirrored (.bracketed ..)) fun _ => rfl

/-- Which requests are refused does not depend on the function. -/
theorem findApproximations_mirrored (f : Float → Float) (settings : BracketSettings)
    (spans : List Span) :
    findApproximations (-f) settings spans =
      (findApproximations f settings spans).mirrored id (List.map Approximation.mirrored) := by
  refine Run.mirrored_bind (g := id) ?_ fun (intervals, rounds) => ?_
  -- the plan is made without an evaluation
  · cases settings.plan spans <;> rfl
  · exact Run.mirrored_lift (bracketRoots_mirrored f settings.digits rounds intervals)

/-! ## All methods -/

/-- Changing the sign of a function and of its derivatives changes signs and nothing else, for
    every function, all settings and all starts.  Bisection gives the same locations with values
    of the other sign, or the same error.  Newton's method, the secant method, the method of false
    position, Chebyshev's method and the multipoint iteration by either rule give the same report
    with the value at the root of the other sign, or the same error, in which a value or a slope
    has the other sign.  On the way they evaluate at the same locations and log the same points,
    with values of the other sign. -/
theorem mirrored_methods (f df d2f : Float → Float) :
    (∀ settings spans, findApproximations (-f) settings spans =
        (findApproximations f settings spans).mirrored id (List.map Approximation.mirrored)) ∧
      (∀ settings x₀, Newton.refine (-f) (-df) settings x₀ =
        (Newton.refine f df settings x₀).mirrored RefineError.mirrored Report.mirrored) ∧
      (∀ settings x₀ x₁, Secant.refine (-f) settings x₀ x₁ =
        (Secant.refine f settings x₀ x₁).mirrored RefineError.mirrored Report.mirrored) ∧
      (∀ settings x₀ x₁, FalsePosition.refine (-f) settings x₀ x₁ =
        (FalsePosition.refine f settings x₀ x₁).mirrored RefineError.mirrored
          Report.mirrored) ∧
      (∀ settings x₀, Chebyshev.refine (-f) (-df) (-d2f) settings x₀ =
        (Chebyshev.refine f df d2f settings x₀).mirrored RefineError.mirrored
          Report.mirrored) ∧
      ∀ settings x₀, Multipoint.refine (-f) (-df) settings x₀ =
        (Multipoint.refine f df settings x₀).mirrored RefineError.mirrored Report.mirrored := by
  refine ⟨findApproximations_mirrored f, fun settings x₀ => ?newton,
    fun settings x₀ x₁ => ?secant, fun settings x₀ x₁ => ?falsePosition,
    fun settings x₀ => ?chebyshev, fun settings x₀ => ?multipoint⟩
  case newton => exact (Newton.mirrors f df _).refine settings (OnePoint.start_mirrored f x₀)
  case secant => exact (Secant.mirrors f _).refine settings (TwoPoint.start_mirrored f x₀ x₁)
  case falsePosition =>
    exact (FalsePosition.mirrors f _).refine settings (TwoPoint.start_mirrored f x₀ x₁)
  case chebyshev =>
    exact (Chebyshev.mirrors f df d2f _).refine settings (OnePoint.start_mirrored f x₀)
  case multipoint =>
    exact (Multipoint.mirrors f df _ _).refine settings.toSettings
      (OnePoint.start_mirrored f x₀)

end ScalarRoots
