import ScalarRoots.Proofs.Refinement.Iterates
import ScalarRoots.Proofs.Refinement.Lockstep

/-!
# Multipoint iterations with a constant slope

Where the slope is the same everywhere, looking for it at another location is no use.  By the
midpoint rule the multipoint iteration then takes the very step that Newton's method takes, and
its refinements are those of Newton's method.  By the other rule a step is two Newton steps at
once: the correction of the predicted point is the Newton step from there.

## Key results

- `chordStep`: the Newton step with a constant slope
- `Multipoint.outcome_step_midpointDerivative`: the midpoint rule takes Newton steps
- `Multipoint.refine_constant_slope`: what becomes of the iteration by either rule
-/

namespace ScalarRoots

/-- Where a Newton step leads to when the slope is `d`. -/
def chordStep (f : Float → Float) (d y : Float) : Float := y - f y / d

/-- The multipoint iteration has its own word for a step that is not finite. -/
def RefineError.asVanishingSlope : RefineError → RefineError
  | newtonStep x slope => vanishingSlope x slope
  | e => e

/-! ## The midpoint rule -/

/-- Newton's method and the multipoint iteration differ in nothing but their steps. -/
theorem Newton.resembles_multipoint (f df df' : Float → Float) (rule : MultipointRule)
    (t : Tolerance) : (scheme f df t).Resembles (Multipoint.scheme f df' rule t) id :=
  ⟨fun _ => rfl, fun _ => rfl, fun _ => rfl⟩

namespace Multipoint

/-- A ratio is given when it is finite. -/
theorem outcome_checkedRatio (y x slope : Float) :
    (checkedRatio y x slope).outcome =
      if (y / slope).isFinite then .ok (y / slope) else .error (.vanishingSlope x slope) := by
  simp only [checkedRatio]
  split <;> rfl

/-- With a constant slope the midpoint rule leads where the Newton step does. -/
theorem outcome_nextLocation_midpointDerivative (f : Float → Float) (d : Float)
    (p : Point Float) :
    (nextLocation f (fun _ => d) .midpointDerivative p).outcome =
      (((newtonStep (fun _ => d) p).outcome.map fun newton => p.x - newton.step).mapError
        RefineError.asVanishingSlope) := by
  simp only [nextLocation, Run.outcome_bind, outcome_evaluate, outcome_checkedRatio,
    outcome_newtonStep]
  -- the slope at the midpoint is the one that has been checked already
  by_cases hd : d.isFinite = true
  · by_cases hstep : (p.y / d).isFinite = true
    · simp [hd, hstep, Except.bind, Except.map, Except.mapError]
    · simp [hd, hstep, Except.bind, Except.map, Except.mapError, RefineError.asVanishingSlope]
  · simp [hd, Except.bind, Except.map, Except.mapError, RefineError.asVanishingSlope]

/-- So the two methods take the same step. -/
theorem outcome_step_midpointDerivative (f : Float → Float) (d : Float) (number : Nat)
    (s : OnePoint) :
    (step f (fun _ => d) .midpointDerivative number s).outcome =
      (Newton.step f (fun _ => d) number s).outcome.mapError RefineError.asVanishingSlope := by
  simp only [step, Newton.step, Run.outcome_bind, outcome_nextLocation_midpointDerivative]
  cases (newtonStep (fun _ => d) s.current).outcome with
  | error e => rfl
  | ok newton =>
    -- from here on both go to the same location
    show Except.bind (evaluatePoint f (s.current.x - newton.step)).outcome _ =
      Except.mapError _ (Except.bind (evaluatePoint f (s.current.x - newton.step)).outcome _)
    rw [outcome_evaluatePoint]
    split <;> rfl

end Multipoint

/-- The errors of a start are the same for both. -/
theorem OnePoint.asVanishingSlope_of_start {f : Float → Float} {x₀ : Float} {e : RefineError}
    (h : (start f x₀).outcome = .error e) : e.asVanishingSlope = e := by
  unfold start at h
  split at h
  · -- a value that is not finite
    rcases Run.outcome_bind_eq_error.1 h with hpoint | ⟨_, -, hrest⟩
    · rw [outcome_evaluatePoint] at hpoint
      split at hpoint
      · cases hpoint
      · cases hpoint
        rfl
    · cases hrest
  · -- a location that is not finite
    cases h
    rfl

/-! ## The other rule -/

/-- The `k`-th element of the sequence that starts with `x₀` and goes on by Newton steps with the
    slope `d`, as a point of the graph. -/
def chordPoint (f : Float → Float) (d x₀ : Float) (k : Nat) : Point Float :=
  OnePoint.nth f (chordStep f d) x₀ k

section Visits

variable {f : Float → Float} {d x₀ : Float} {t : Tolerance} {done : Nat} {best : Point Float}
  {s : OnePoint}

/-- With a constant slope Newton's method goes through the sequence. -/
theorem Newton.current_of_visits (h₀ : (f x₀).isFinite = true)
    (h : (scheme f (fun _ => d) t).Visits ⟨x₀, ⟨x₀, f x₀⟩⟩ done best s) :
    s.current = chordPoint f d x₀ done := by
  obtain ⟨rfl, -, -⟩ := (goesBy f fun _ => d).state_of_visits ⟨rfl, h₀⟩ h
  rfl

/-- The predictor and the corrector are a Newton step each. -/
theorem Multipoint.current_of_visits (h₀ : (f x₀).isFinite = true)
    (h : (scheme f (fun _ => d) .predictorCorrector t).Visits ⟨x₀, ⟨x₀, f x₀⟩⟩ done best s) :
    s.current = chordPoint f d x₀ (2 * done) := by
  obtain ⟨rfl, -, -⟩ := (goesBy_predictorCorrector f fun _ => d).state_of_visits ⟨rfl, h₀⟩ h
  unfold chordPoint OnePoint.nth
  rw [Function.iterate_mul]
  rfl

end Visits

/-! ## Refinements -/

namespace Multipoint

/-- The multipoint iteration with the slope `d` everywhere.  By the midpoint rule its outcome is
    that of Newton's method: the same root with the same value, iterations, ending and stencil,
    or the same error, in which a step that is not finite is called a vanishing slope.  It has
    only evaluated the slope once more in every iteration.  By the other rule, its `k`-th iterate
    is number `2 k` of the sequence that Newton's method goes through, and so is the root that it
    converges to. -/
theorem refine_constant_slope (f : Float → Float) (d x₀ : Float) (settings : Settings) :
    (refine f (fun _ => d) ⟨settings, .midpointDerivative⟩ x₀).outcome =
        ((Newton.refine f (fun _ => d) settings x₀).outcome.mapError
          RefineError.asVanishingSlope).map (Report.retold .multipoint id 1) ∧
      ∀ s₀, (OnePoint.start f x₀).outcome = .ok s₀ →
        (∀ done best s, (Newton.scheme f (fun _ => d) settings.tolerance).Visits s₀ done best s →
          s.current = chordPoint f d x₀ done) ∧
        (∀ done best s,
          (scheme f (fun _ => d) .predictorCorrector settings.tolerance).Visits s₀ done best s →
            s.current = chordPoint f d x₀ (2 * done)) ∧
        ∀ r, (refine f (fun _ => d) ⟨settings, .predictorCorrector⟩ x₀).outcome = .ok r →
          r.isConverged = true → r.root = chordPoint f d x₀ (2 * r.iterations) := by
  constructor
  · refine (Newton.resembles_multipoint f _ _ _ settings.tolerance).outcome_refine
      ((Refinement.newton (fun _ => d) x₀).isAccounted_scheme f settings.tolerance)
      ((Refinement.multipoint (fun _ => d) .midpointDerivative x₀).isAccounted_scheme f
        settings.tolerance) rfl
      (OnePoint.isAccounted_start f x₀) (OnePoint.isAccounted_start f x₀) rfl
      (fun _ => OnePoint.asVanishingSlope_of_start) fun s₀ _ done best s _ _ _ => ?_
    exact outcome_step_midpointDerivative f d (done + 1) s
  · intro s₀ hs₀
    obtain ⟨-, rfl, hgraph⟩ := OnePoint.start_eq_ok.1 hs₀
    refine ⟨fun _ _ _ => Newton.current_of_visits hgraph.finite,
      fun _ _ _ => Multipoint.current_of_visits hgraph.finite, fun r hr hconverged => ?_⟩
    obtain ⟨s₁, fin, _, hs₁, hends, rfl⟩ := exists_ends_of_refine hr
    cases hs₀.symm.trans hs₁
    cases hends with
    | met hvis _ _ => exact current_of_visits hgraph.finite hvis
    | exhausted => cases hconverged
    | accepted _ _ _ hstep =>
      -- only Chebyshev's method accepts a point in this way
      exact absurd hstep (Refinement.step_ne_accepted
        (m := .multipoint (fun _ => d) .predictorCorrector x₀) nofun _ _ _)
    | stuck => cases hconverged

/-- With the slope three, both rules converge from one and a half to the root of two, and by the
    second rule the root is a point of the sequence with an even number. -/
theorem refine_constant_slope_root_two :
    ∃ r r', (Newton.refine (fun x => x * x - 2) (fun _ => 3) {} 1.5).outcome = .ok r ∧
      (refine (fun x => x * x - 2) (fun _ => 3) ⟨{}, .midpointDerivative⟩ 1.5).outcome =
        .ok (r.retold .multipoint id 1) ∧
      (refine (fun x => x * x - 2) (fun _ => 3) ⟨{}, .predictorCorrector⟩ 1.5).outcome =
        .ok r' ∧
      r'.isConverged = true ∧
        r'.root = chordPoint (fun x => x * x - 2) 3 1.5 (2 * r'.iterations) := by
  obtain ⟨hmidpoint, hsequence⟩ := refine_constant_slope (fun x => x * x - 2) 3 1.5 {}
  obtain ⟨r, hr⟩ := Run.exists_outcome_eq_ok
    (show (Newton.refine (fun x => x * x - 2) (fun _ => 3) {} 1.5).outcome.isOk = true by
      decide +kernel)
  obtain ⟨r', hr', hconverged⟩ := exists_report_of_any
    (x := refine (fun x => x * x - 2) (fun _ => 3) ⟨{}, .predictorCorrector⟩ 1.5)
    (p := fun r => r.isConverged) (by decide +kernel)
  obtain ⟨s₀, hs₀⟩ := Run.exists_outcome_eq_ok
    (show (OnePoint.start (fun x => x * x - 2) 1.5).outcome.isOk = true by decide +kernel)
  refine ⟨r, r', hr, ?_, hr', hconverged, (hsequence s₀ hs₀).2.2 r' hr' hconverged⟩
  rw [hmidpoint, hr]
  rfl

end Multipoint

end ScalarRoots
