import ScalarRoots.Proofs.Binary64.Arithmetic
import ScalarRoots.Proofs.Refinement.Honesty
import ScalarRoots.Proofs.Refinement.Running

/-!
# Convergence by a small step

Three methods may end because a step was small, and they do not mean the same step.  The secant
method and false position look at the two points they have: these are closer than the
tolerance, as computed and exactly.  Chebyshev's method looks at the Newton step alone, before
it is corrected by the curvature.  The correction may be as long as it likes, and so may be the
way to the root that is reported.

## Key results

- `TwoPoint.close_of_criterion?`: what the test on two points tells about them
- `Chebyshev.exists_newton_of_accepted`: what the test on a Newton step tells about a step
- `Refinement.last_step_of_converged`: what convergence by a small step means
- `Chebyshev.exists_long_step`: a small step that goes far
-/

namespace ScalarRoots

open Binary64

/-! ## Iterations from two points -/

/-- Two points that end an iteration by their distance are closer than the tolerance, exactly. -/
theorem TwoPoint.close_of_criterion? {f : Float → Float} {t : Tolerance} {s : TwoPoint}
    (hs : s.IsFinite f) (h : s.criterion? t = some .step) :
    (s.newer.x - s.older.x).abs < t.bound ∧
      |units s.newer.x - units s.older.x| < units t.bound := by
  obtain ⟨-, hgap⟩ := criterion?_eq_step.1 h
  exact ⟨hgap, abs_units_sub_lt hs.older.location_finite hs.newer.location_finite t.finite hgap⟩

/-- The last two points of the report are closer than the tolerance, and the newest one is the
    root. -/
def Report.HasClosePoints (t : Tolerance) (r : Report) : Prop :=
  ∃ a b, r.stencil.points = [a, b] ∧ r.root.x = b ∧ (b - a).abs < t.bound ∧
    |units b - units a| < units t.bound

section TwoPoint

variable {f : Float → Float} {settings : Settings} {x₀ x₁ : Float} {r : Report}

/-- The secant method ends by a small step where its two points are close. -/
theorem Secant.hasClosePoints_of_converged (h : (refine f settings x₀ x₁).outcome = .ok r)
    (hstep : r.met = some .step) : r.HasClosePoints settings.tolerance := by
  obtain ⟨s₀, fin, _, hstart, hends, rfl⟩ := exists_ends_of_refine h
  obtain ⟨_, _, s, hvis, hc, rfl⟩ :=
    hends.exists_of_step (Refinement.step_ne_accepted (m := .secant x₀ x₁) nofun) hstep
  -- the test passes at the last state, whose points are finite
  have hs := isFinite_of_visits (TwoPoint.isFinite_of_start hstart) hvis
  exact ⟨_, _, rfl, rfl, TwoPoint.close_of_criterion? hs hc⟩

/-- So does false position, whose older point may be an old one. -/
theorem FalsePosition.hasClosePoints_of_converged
    (h : (refine f settings x₀ x₁).outcome = .ok r)
    (hstep : r.met = some .step) : r.HasClosePoints settings.tolerance := by
  obtain ⟨s₀, fin, _, hstart, hends, rfl⟩ := exists_ends_of_refine h
  obtain ⟨_, _, s, hvis, hc, rfl⟩ :=
    hends.exists_of_step (Refinement.step_ne_accepted (m := .falsePosition x₀ x₁) nofun) hstep
  have hs := isFinite_of_visits (TwoPoint.isFinite_of_start hstart) hvis
  exact ⟨_, _, rfl, rfl, TwoPoint.close_of_criterion? hs hc⟩

end TwoPoint

/-! ## Chebyshev's method -/

namespace Chebyshev

/-- The Newton step from the previous point is below the tolerance, and the root is where the
    corrected step leads. -/
def HasSmallNewtonStep (f df d2f : Float → Float) (t : Tolerance) (r : Report) : Prop :=
  ∃ p, r.stencil.points = [p] ∧ (f p / df p).abs < t.bound ∧
    r.root.x = (p - f p / df p) - 0.5 * f p * f p * d2f p / (df p * df p * df p)

/-- A step is accepted where the Newton step in it is below the tolerance. -/
theorem exists_newton_of_accepted {f df d2f : Float → Float} {t : Tolerance} {number : Nat}
    {s next : OnePoint} (hs : s.current.OnGraph f)
    (h : (step f df d2f t number s).outcome = .ok (.accepted next)) :
    (f s.current.x / df s.current.x).abs < t.bound ∧ next.previous = s.current.x ∧
      next.current.x = (s.current.x - f s.current.x / df s.current.x)
        - 0.5 * f s.current.x * f s.current.x * d2f s.current.x
          / (df s.current.x * df s.current.x * df s.current.x) := by
  obtain ⟨newton, curvature, p, hnewton, hcurvature, -, hp, hadvance⟩ := step_eq_ok.1 h
  obtain ⟨rfl, -, -⟩ := newtonStep_eq_ok.1 hnewton
  obtain ⟨rfl, -⟩ := evaluatePoint_eq_ok.1 hp
  obtain ⟨rfl, -⟩ := evaluate_eq_ok.1 hcurvature
  unfold corrected at hadvance
  rw [hs.value_eq] at hadvance
  -- the test is on the Newton step, not on the corrected one
  split at hadvance
  · next hsmall =>
    cases hadvance
    exact ⟨Tolerance.meets_eq_true.1 hsmall, rfl, rfl⟩
  · cases hadvance

/-- Chebyshev's method ends by a small step only where it accepts a step. -/
theorem hasSmallNewtonStep_of_converged {f df d2f : Float → Float} {settings : Settings}
    {x₀ : Float} {r : Report} (h : (refine f df d2f settings x₀).outcome = .ok r)
    (hstep : r.met = some .step) :
    HasSmallNewtonStep f df d2f settings.tolerance r := by
  obtain ⟨s₀, fin, _, hstart, hends, rfl⟩ := exists_ends_of_refine h
  have h₀ := (OnePoint.start_eq_ok.1 hstart).2.2
  cases hends with
  | met _ _ hc =>
    cases hstep
    -- the residual is all that is tested between the steps
    cases (OnePoint.criterion?_eq_some.1 hc).1
  | exhausted => cases hstep
  | stuck => cases hstep
  | @accepted _ _ s next hvis _ _ haccepted =>
    have hs := ((Refinement.chebyshev df d2f x₀).isFaithful f settings.tolerance).newest_onGraph
      h₀ hvis
    obtain ⟨hsmall, hprevious, hnext⟩ := exists_newton_of_accepted hs haccepted
    exact ⟨s.current.x, congrArg (fun x => [x]) hprevious, hsmall, hnext⟩

end Chebyshev

/-! ## Reports -/

namespace Refinement

/-- What convergence by a small step means.  After iterations of the secant method or of false
    position, the last two points are closer than the tolerance, the computed distance and the
    exact one, and the newest is the root.  After Chebyshev's method, the Newton step from the
    previous point is below the tolerance; the root is where this step leads after its
    correction. -/
theorem last_step_of_converged (m : Refinement) (f : Float → Float) (settings : Settings)
    (r : Report) (h : (m.run f settings).outcome = .ok r)
    (hstep : r.met = some .step) :
    (m.algorithm = .secant ∨ m.algorithm = .falsePosition →
        r.HasClosePoints settings.tolerance) ∧
      ∀ df d2f x₀, m = .chebyshev df d2f x₀ →
        Chebyshev.HasSmallNewtonStep f df d2f settings.tolerance r := by
  constructor
  · intro htwo
    cases m with
    | secant x₀ x₁ => exact Secant.hasClosePoints_of_converged h hstep
    | falsePosition x₀ x₁ => exact FalsePosition.hasClosePoints_of_converged h hstep
    | _ => rcases htwo with htwo | htwo <;> cases htwo
  · rintro df d2f x₀ rfl
    exact Chebyshev.hasSmallNewtonStep_of_converged h hstep

/-- On the root of two, with a function so steep that its values never get small. -/
theorem last_step_of_converged_root_two :
    (∃ r, ((secant 1 2).run (fun x => 1073741824 * (x * x - 2)) {}).outcome = .ok r ∧
        r.HasClosePoints .default) ∧
      ∃ r, ((chebyshev (fun x => 2147483648 * x) (fun _ => 2147483648) 1.5).run
          (fun x => 1073741824 * (x * x - 2)) {}).outcome = .ok r ∧
        Chebyshev.HasSmallNewtonStep (fun x => 1073741824 * (x * x - 2))
          (fun x => 2147483648 * x) (fun _ => 2147483648) .default r := by
  constructor
  · obtain ⟨r, hr, hstep⟩ := exists_report_of_any (x := (secant 1 2).run
      (fun x => 1073741824 * (x * x - 2)) {}) (p := (·.met = some .step))
      (by decide +kernel)
    exact ⟨r, hr, (last_step_of_converged _ _ _ r hr (of_decide_eq_true hstep)).1 (.inl rfl)⟩
  · obtain ⟨r, hr, hstep⟩ := exists_report_of_any (x := (chebyshev (fun x => 2147483648 * x)
      (fun _ => 2147483648) 1.5).run (fun x => 1073741824 * (x * x - 2)) {})
      (p := (·.met = some .step)) (by decide +kernel)
    exact ⟨r, hr, (last_step_of_converged _ _ _ r hr (of_decide_eq_true hstep)).2 _ _ _ rfl⟩

end Refinement

/-- The way to the root may be long all the same.  At zero, the function
    `-1 + 2 ^ 17 x + 2 ^ 51 x ^ 2` has a Newton step of `-2 ^ (-17)`, which is below the default
    tolerance, and its curvature corrects the step by one.  So Chebyshev's method ends by a small
    step nearly one away from the point before. -/
theorem Chebyshev.exists_long_step :
    ∃ (f df d2f : Float → Float) (x₀ : Float) (iterations : Count) (r : Report),
      (refine f df d2f { iterations := some iterations } x₀).outcome = .ok r ∧
        r.met = some .step ∧ r.stencil = .single x₀ ∧
          ¬ (r.root.x - x₀).abs < Tolerance.default.bound := by
  obtain ⟨r, hr, htest⟩ := exists_report_of_any
    (x := refine (fun x => (2251799813685248 * x + 131072) * x + -1)
      (fun x => 4503599627370496 * x + 131072) (fun _ => 4503599627370496)
      { iterations := some ⟨1, by decide⟩ } 0)
    (p := fun r => r.met = some .step ∧ r.stencil = .single 0 ∧
      ¬ (r.root.x - 0).abs < Tolerance.default.bound) (by decide +kernel)
  exact ⟨_, _, _, 0, ⟨1, by decide⟩, r, hr, of_decide_eq_true htest⟩

end ScalarRoots
