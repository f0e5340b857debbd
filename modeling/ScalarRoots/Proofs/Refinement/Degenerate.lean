import ScalarRoots.Proofs.Binary64.Range
import ScalarRoots.Proofs.Refinement.Family
import ScalarRoots.Proofs.Refinement.Intercept
import ScalarRoots.Proofs.Refinement.Running

/-!
# Degenerate secants

The secant method and the method of false position fail with a degenerate secant where the line
through two points has no finite zero.  That is where the values at the points are equal, but also
where the zero, or something on the way to it, is too large.  A rise that overflows does no harm,
though, and neither does a product that underflows.

## Key results

- `TwoPoint.interceptTerms`: what the zero of the line is computed from
- `TwoPoint.isFinite_intercept`: where nothing is too large, there is one
- `TwoPoint.intercept_eq_none_cases`: which pairs of points have no intercept
- `TwoPoint.start_error_cases`: how starts fail
- `TwoPoint.interceptPoint_eq_error` and its namesakes: how the steps fail
- `Refinement.degenerateSecant_out_of_range`: when a refinement fails with a degenerate secant
-/

namespace ScalarRoots

open Binary64

namespace TwoPoint

/-- What the zero of the line through two points is computed from, and the zero itself, over exact
    numbers: all but the rise. -/
def interceptTerms (older newer : Point ℚ) : List ℚ :=
  let gap := newer.x - older.x
  let rise := newer.y - older.y
  [gap, newer.y * gap, newer.y * gap / rise, newer.x - newer.y * gap / rise]

/-- The same for the points of a state. -/
def exactTerms (s : TwoPoint) : List ℚ :=
  interceptTerms ⟨toRat s.older.x, toRat s.older.y⟩ ⟨toRat s.newer.x, toRat s.newer.y⟩

end TwoPoint

/-! ## Rounded operands -/

section Rounded

variable {p q r : Float} {exact exact' : ℚ}

/-- The product with a rounded factor is within a percent of the exact one, but for half of the
    least positive number. -/
private theorem toRat_mul_rounded (hp : p.isFinite = true) (hq : q.isFinite = true)
    (hclose : IsClose (toRat q) exact) (h : ¬ IsTooLarge (toRat p * exact)) :
    (p * q).isFinite = true ∧
      |toRat (p * q) - toRat p * exact| ≤ |toRat p * exact| / 100 + leastPositive / 2 := by
  have hscaled := hclose.mul_left (toRat p)
  have hle := hscaled.abs_le
  -- the product that is rounded is a percent larger at most, and there is room for that
  have hsafe : |toRat p * toRat q| ≤ safeBound := by
    have hlarge := not_lt.1 h
    have := le_largeBound
    unfold safeBound
    linarith
  obtain ⟨hfin, hrounded⟩ := toRat_mul hp hq hsafe
  refine ⟨hfin, ?_⟩
  unfold IsClose at hscaled
  unfold IsCloseOrSmall at hrounded
  have hadd := abs_sub_le (toRat (p * q)) (toRat p * toRat q) (toRat p * exact)
  have := abs_nonneg (toRat p * exact)
  linarith

/-- A quotient is close to the exact one if the dividend is such a product and the divisor is
    rounded. -/
private theorem abs_div_sub_div_le {P Q R r least : ℚ} (hleast : 0 < least) (hR : least ≤ |R|)
    (hr : r ≠ 0) (hP : |P - Q| ≤ |Q| / 100 + least / 2) (hclose : IsClose R r) :
    |P / R - Q / r| ≤ 3 / 100 * |Q / r| + 1 / 2 := by
  have hRpos : 0 < |R| := hleast.trans_le hR
  have hRne : R ≠ 0 := abs_pos.1 hRpos
  have hrR := hclose.le_abs
  -- the two errors are told apart: one is that of the dividend, the other that of the divisor
  have hsplit : P / R - Q / r = (P - Q) / R + Q / r * ((r - R) / R) := by
    field_simp
    ring
  -- the error of the dividend, and that of the divisor
  have hdividend : |(P - Q) / R| ≤ 101 / 10000 * |Q / r| + 1 / 2 := by
    have hQ : |Q| ≤ 101 / 100 * |Q / r| * |R| :=
      calc |Q| = |Q / r| * |r| := by rw [← abs_mul, div_mul_cancel₀ _ hr]
        _ ≤ |Q / r| * (101 / 100 * |R|) := mul_le_mul_of_nonneg_left hrR (abs_nonneg _)
        _ = 101 / 100 * |Q / r| * |R| := by ring
    rw [abs_div, div_le_iff₀ hRpos]
    linarith
  have hdivisor : |(r - R) / R| ≤ 1 / 100 := by
    unfold IsClose at hclose
    rw [abs_div, div_le_iff₀ hRpos, abs_sub_comm]
    linarith
  calc |P / R - Q / r| ≤ |(P - Q) / R| + |Q / r * ((r - R) / R)| := hsplit ▸ abs_add_le _ _
    _ ≤ (101 / 10000 * |Q / r| + 1 / 2) + |Q / r| * (1 / 100) := by
        rw [abs_mul]
        gcongr
    _ ≤ 3 / 100 * |Q / r| + 1 / 2 := by
        have := abs_nonneg (Q / r)
        linarith

/-- So it does not overflow, and neither do a few percent more. -/
private theorem toRat_div_rounded (hp : p.isFinite = true) (hr : r.isFinite = true)
    (hne : toRat r ≠ 0) (hdividend : |toRat p - exact| ≤ |exact| / 100 + leastPositive / 2)
    (hdivisor : IsClose (toRat r) exact') (h : ¬ IsTooLarge (exact / exact')) :
    (p / r).isFinite = true ∧ |toRat (p / r) - exact / exact'| ≤ largeBound / 4 := by
  have hlarge := not_lt.1 h
  have hbound := le_largeBound
  have hleast := leastPositive_le
  have hclose := abs_div_sub_div_le leastPositive_pos (leastPositive_le_abs hne)
    (hdivisor.eq_zero_iff.not.1 hne) hdividend hdivisor
  have hle := abs_sub_abs_le_abs_sub (toRat p / toRat r) (exact / exact')
  -- three percent more than the large bound is still safe to round
  have hsafe : |toRat p / toRat r| ≤ safeBound := by
    unfold safeBound
    linarith
  obtain ⟨hfin, hrounded⟩ := toRat_div hp hr hne hsafe
  refine ⟨hfin, ?_⟩
  unfold IsCloseOrSmall at hrounded
  have hadd := abs_sub_le (toRat (p / r)) (toRat p / toRat r) (exact / exact')
  linarith

/-- Subtracting what is close to the exact subtrahend does not overflow. -/
private theorem isFinite_sub_rounded (hp : p.isFinite = true) (hq : q.isFinite = true)
    (herror : |toRat q - exact| ≤ largeBound / 4) (h : ¬ IsTooLarge (toRat p - exact)) :
    (p - q).isFinite = true := by
  have hlarge := not_lt.1 h
  have hadd := abs_sub_le (toRat p) exact (toRat q)
  rw [abs_sub_comm exact] at hadd
  have hsafe : |toRat p - toRat q| ≤ safeBound := by
    have := le_largeBound
    unfold safeBound
    linarith
  exact (toRat_sub hp hq hsafe).1

end Rounded

/-! ## The intercept -/

namespace TwoPoint

variable {s : TwoPoint}

/-- If the rise overflows, the intercept is the newer point. -/
theorem isFinite_intercept_of_overflow (hnew : s.newer.x.isFinite = true)
    (hproduct : (s.newer.y * s.gap).isFinite = true)
    (hnan : (s.newer.y - s.older.y).isNaN = false)
    (hrise : (s.newer.y - s.older.y).isFinite = false) :
    (s.newer.x - s.stride).isFinite = true := by
  obtain ⟨hfin, hzero⟩ := units_div_of_not_isFinite hproduct hnan hrise
  obtain ⟨hnan', hunits⟩ := units_sub hnew (y := s.stride) hfin
  -- a finite product divided by an infinite rise is zero
  have hzero' : units s.stride = 0 := hzero
  rw [hzero', Int.cast_zero, sub_zero, roundUnits_units hnew] at hunits
  exact isFinite_iff.2 ⟨hnan', hunits ▸ (isFinite_iff.1 hnew).2⟩

/-- Where the values differ and nothing is too large, the intercept is finite. -/
theorem isFinite_intercept {f : Float → Float} (hs : s.IsFinite f)
    (hrise : (s.newer.y - s.older.y == 0) = false)
    (hlarge : ∀ q ∈ s.exactTerms, ¬ IsTooLarge q) :
    (s.newer.x - s.stride).isFinite = true := by
  simp only [exactTerms, interceptTerms, List.forall_mem_cons] at hlarge
  obtain ⟨hgap, hproduct, hstride, hintercept, -⟩ := hlarge
  obtain ⟨⟨-, hfold⟩, hxold⟩ := hs.older
  obtain ⟨⟨-, hfnew⟩, hxnew⟩ := hs.newer
  obtain ⟨hfgap, hegap⟩ := toRat_sub hxnew hxold ((not_lt.1 hgap).trans largeBound_le_safeBound)
  obtain ⟨hfproduct, heproduct⟩ := toRat_mul_rounded hfnew hfgap hegap hproduct
  -- the rise may overflow, as it does not occur among the exact terms
  cases hfrise : (s.newer.y - s.older.y).isFinite with
  | false =>
    exact isFinite_intercept_of_overflow hxnew hfproduct (units_sub hfnew hfold).1 hfrise
  | true =>
    have hne : toRat (s.newer.y - s.older.y) ≠ 0 := by
      intro hzero
      rw [← toRat_eq_zero_iff.2 units_zero] at hzero
      exact Bool.eq_false_iff.1 hrise (beq_of_toRat hfrise (by decide) hzero)
    obtain ⟨hfstride, hestride⟩ := toRat_div_rounded hfproduct hfrise hne heproduct
      (isClose_sub hfnew hfold hfrise) hstride
    exact isFinite_sub_rounded hxnew hfstride hestride hintercept

/-- Two finite points of the graph without an intercept have equal values, or something about
    their intercept is too large. -/
theorem intercept_eq_none_cases {f : Float → Float} (hs : s.IsFinite f) (h : s.intercept = none) :
    (s.older.y == s.newer.y) = true ∨ ∃ q ∈ s.exactTerms, IsTooLarge q := by
  simp only [intercept] at h
  split at h
  · -- a rise of zero: the values are equal, since differences do not underflow
    next hrise =>
    have hbeq := beq_of_sub_beq_zero hs.newer.finite hs.older.finite hrise
    obtain ⟨⟨hnew, hold⟩, hunits⟩ := beq_iff.1 hbeq
    exact .inl (beq_iff.2 ⟨⟨hold, hnew⟩, hunits.symm⟩)
  · next hrise =>
    split at h
    · cases h
    · next hx =>
      -- the values differ, so only something that is too large is left to blame
      right
      by_contra! hlarge
      exact hx (isFinite_intercept hs (Bool.eq_false_iff.2 hrise) hlarge)

/-! ## Failures -/

/-- A step fails where there is no intercept, or where the function is not finite at it. -/
theorem interceptPoint_eq_error {f : Float → Float} {e : RefineError} :
    (s.interceptPoint f).outcome = .error e ↔
      (s.intercept = none ∧ e = .degenerateSecant s.older.x s.newer.x) ∨
        ∃ x, s.intercept = some x ∧ (evaluatePoint f x).outcome = .error e := by
  unfold interceptPoint
  cases s.intercept with
  | some x => simp
  | none => simp [eq_comm]

/-- Only a missing intercept makes a degenerate secant. -/
theorem intercept_eq_none_of_interceptPoint {f : Float → Float} {a b : Float}
    (h : (s.interceptPoint f).outcome = .error (.degenerateSecant a b)) :
    s.intercept = none ∧ a = s.older.x ∧ b = s.newer.x := by
  rcases interceptPoint_eq_error.1 h with ⟨hnone, he⟩ | ⟨x, -, hx⟩
  · cases he
    exact ⟨hnone, rfl, rfl⟩
  · cases (evaluatePoint_eq_error.1 hx).1

/-- A start refuses a pair that is not distinct and finite; else it fails where the function is not
    finite. -/
theorem start_error_cases {f : Float → Float} {x₀ x₁ : Float} {e : RefineError}
    (h : (start f x₀ x₁).outcome = .error e) :
    (x₀.isFinite && x₁.isFinite && x₀ != x₁) = false ∧ e = .invalidPair x₀ x₁ ∨
      ∃ x, e = .notFinite .value x (f x) := by
  unfold start at h
  split at h
  · rcases Run.outcome_bind_eq_error.1 h with hold | ⟨_, -, hrest⟩
    · exact .inr ⟨x₀, (evaluatePoint_eq_error.1 hold).1⟩
    · rcases Run.outcome_bind_eq_error.1 hrest with hnew | ⟨_, -, hdone⟩
      · exact .inr ⟨x₁, (evaluatePoint_eq_error.1 hnew).1⟩
      · cases hdone
  · next hrefused =>
    cases h
    exact .inl ⟨Bool.eq_false_iff.2 hrefused, rfl⟩

/-- A start fails for other reasons. -/
theorem start_ne_degenerateSecant (f : Float → Float) (x₀ x₁ a b : Float) :
    (start f x₀ x₁).outcome ≠ .error (.degenerateSecant a b) := by
  intro h
  rcases start_error_cases h with ⟨-, he⟩ | ⟨x, he⟩
  · cases he
  · cases he

end TwoPoint

/-- A step fails as its intercept does. -/
theorem Secant.step_eq_error {f : Float → Float} {number : Nat} {s : TwoPoint}
    {e : RefineError} :
    (step f number s).outcome = .error e ↔ (s.interceptPoint f).outcome = .error e := by
  simp only [step, Run.outcome_bind_eq_error, Run.outcome_lift_bind, Run.outcome_pure, reduceCtorEq,
    and_false, exists_false, or_false]

/-- And the same for false position. -/
theorem FalsePosition.step_eq_error {f : Float → Float} {number : Nat} {s : TwoPoint}
    {e : RefineError} :
    (step f number s).outcome = .error e ↔ (s.interceptPoint f).outcome = .error e := by
  simp only [step, Run.outcome_bind_eq_error, Run.outcome_lift_bind, Run.outcome_pure, reduceCtorEq,
    and_false, exists_false, or_false]

namespace Refinement

/-- A degenerate secant has two finite points that have no intercept. -/
theorem exists_twoPoint_of_degenerateSecant {m : Refinement} {f : Float → Float}
    {settings : Settings} (hm : m.algorithm = .secant ∨ m.algorithm = .falsePosition) {a b : Float}
    (h : (m.run f settings).outcome = .error (.degenerateSecant a b)) :
    ∃ s : TwoPoint, s.IsFinite f ∧ s.intercept = none ∧ a = s.older.x ∧ b = s.newer.x := by
  -- the starts fail for other reasons, so it was a step that failed, at a state that was visited
  cases m with
  | secant x₀ x₁ =>
    rcases exists_visits_of_refine_error h with hstart | ⟨s₀, _, _, s, hs₀, hvis, -, -, hstep⟩
    · exact absurd hstart (TwoPoint.start_ne_degenerateSecant f x₀ x₁ a b)
    · exact ⟨s, Secant.isFinite_of_visits (TwoPoint.isFinite_of_start hs₀) hvis,
        TwoPoint.intercept_eq_none_of_interceptPoint (Secant.step_eq_error.1 hstep)⟩
  | falsePosition x₀ x₁ =>
    rcases exists_visits_of_refine_error h with hstart | ⟨s₀, _, _, s, hs₀, hvis, -, -, hstep⟩
    · exact absurd hstart (TwoPoint.start_ne_degenerateSecant f x₀ x₁ a b)
    · exact ⟨s, FalsePosition.isFinite_of_visits (TwoPoint.isFinite_of_start hs₀) hvis,
        TwoPoint.intercept_eq_none_of_interceptPoint (FalsePosition.step_eq_error.1 hstep)⟩
  | _ => rcases hm with hm | hm <;> cases hm

/-- Where the secant method or the method of false position fails with a degenerate secant, the
    function is finite at both points and has the same value there, or the zero of the line is out
    of range: over exact numbers the distance of the points is larger than half of where the finite
    numbers end, or its product with the newer value, or that divided by the rise, or the zero. -/
theorem degenerateSecant_out_of_range (m : Refinement) (f : Float → Float) (settings : Settings)
    (hm : m.algorithm = .secant ∨ m.algorithm = .falsePosition) (a b : Float)
    (h : (m.run f settings).outcome = .error (.degenerateSecant a b)) :
    (a.isFinite = true ∧ b.isFinite = true) ∧ ((f a).isFinite = true ∧ (f b).isFinite = true) ∧
      ((f a == f b) = true ∨
        ∃ q ∈ TwoPoint.interceptTerms ⟨toRat a, toRat (f a)⟩ ⟨toRat b, toRat (f b)⟩,
          IsTooLarge q) := by
  obtain ⟨s, hs, hnone, rfl, rfl⟩ := exists_twoPoint_of_degenerateSecant hm h
  have hcases := TwoPoint.intercept_eq_none_cases hs hnone
  -- the state carries the values that the function has at its two points
  have hold := hs.older
  have hnew := hs.newer
  rw [TwoPoint.exactTerms, hold.value_eq, hnew.value_eq] at hcases
  exact ⟨⟨hold.location_finite, hnew.location_finite⟩,
    ⟨hold.value_eq ▸ hold.finite, hnew.value_eq ▸ hnew.finite⟩, hcases⟩

/-- A failure can be told from its cause. -/
theorem outcome_eq_error_of_cause {x : Run RefineError Report} {e : RefineError}
    (h : (match x.outcome with
      | .error cause => decide (cause = e)
      | .ok _ => false) = true) : x.outcome = .error e := by
  cases hx : x.outcome with
  | ok r => simp [hx] at h
  | error cause => simpa [hx] using h

/-- From minus one and one, where `x * x - 2` has the same value, the secant method takes no
    step. -/
theorem degenerateSecant_out_of_range_symmetric :
    ∃ f a b, f = (fun x : Float => x * x - 2) ∧
      ((secant (-1) 1).run f {}).outcome = .error (.degenerateSecant a b) ∧
      (a.isFinite = true ∧ b.isFinite = true) ∧ ((f a).isFinite = true ∧ (f b).isFinite = true) ∧
      ((f a == f b) = true ∨
        ∃ q ∈ TwoPoint.interceptTerms ⟨toRat a, toRat (f a)⟩ ⟨toRat b, toRat (f b)⟩,
          IsTooLarge q) := by
  have hrun : ((secant (-1) 1).run (fun x => x * x - 2) {}).outcome =
      .error (.degenerateSecant (-1) 1) := outcome_eq_error_of_cause (by decide +kernel)
  have h := degenerateSecant_out_of_range (secant (-1) 1) (fun x => x * x - 2) {} (.inl rfl) (-1) 1
    hrun
  exact ⟨fun x => x * x - 2, -1, 1, rfl, hrun, h⟩

/-- Points with different values can be degenerate.  The line `x` has its zero at zero, but seen
    from `2 ^ 600` and `2 ^ 601` the product of the newer value and the distance overflows. -/
theorem degenerateSecant_of_ne :
    let x₀ := Float.ofBits 0x6570000000000000
    let x₁ := Float.ofBits 0x6580000000000000
    ((secant x₀ x₁).run id {}).outcome = .error (.degenerateSecant x₀ x₁) ∧
      ((falsePosition x₀ x₁).run id {}).outcome = .error (.degenerateSecant x₀ x₁) ∧
      (id x₀ == id x₁) = false := by
  intro x₀ x₁
  exact ⟨outcome_eq_error_of_cause (by decide +kernel),
    outcome_eq_error_of_cause (by decide +kernel), by decide +kernel⟩

end Refinement

end ScalarRoots
