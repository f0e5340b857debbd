import Mathlib.Algebra.Polynomial.Eval.Degree
import Mathlib.Analysis.Real.Sqrt
import Mathlib.Tactic.ComputeDegree
import Mathlib.Tactic.FieldSimp
import Mathlib.Tactic.LinearCombination
import ScalarRoots.Refinement.Muller

/-!
# The nearest zero of a parabola

Muller's method fits a parabola through three points and goes to its zero nearest to the newest
one.  Its formulas are written for any kind of number, and over the reals they do what they are
meant to do: there is one such parabola, and the rationalized quadratic formula, in which nothing
cancels, leads to the nearest of its zeros.  So on a polynomial of degree two or less, one step
finds a root.

## Key results

- `Parabola.eq_through_iff`: the parabola through three points, and no other
- `Parabola.abs_denominator`: in the denominator nothing cancels
- `Parabola.isNearestZero`: a step goes to the nearest zero
- `Parabola.eval_through_polynomial`: a polynomial of degree two or less is its own parabola
- `Parabola.through_isNearestZero`: a step on such a polynomial
-/

namespace ScalarRoots

/-- The step to the nearest zero, with a square root to be chosen, and a number that stands in for
    the root of a discriminant that is negative. -/
def Parabola.step {α : Type} [Add α] [Sub α] [Mul α] [Div α] [Neg α] [OfNat α 0] [OfNat α 2]
    [OfNat α 4] [LE α] [DecidableLE α] [LT α] [DecidableLT α] (sqrt : α → α) (fallback : α)
    (q : Parabola α) : α :=
  q.nearestZero (if q.discriminant < 0 then fallback else sqrt q.discriminant)

/-- Over binary64 numbers this is what Muller's method adds to the newest location. -/
theorem Muller.nearestZero_discriminantRoot (q : Parabola Float) :
    q.nearestZero (discriminantRoot q.discriminant).value =
      q.step Float.sqrt discriminantFallback := by
  rw [value_discriminantRoot]
  rfl

/-- A zero of `g` to which no other is closer, seen from `x`. -/
structure IsNearestZero (g : ℝ → ℝ) (x z : ℝ) : Prop where
  eq_zero : g z = 0
  abs_sub_le : ∀ w, g w = 0 → |z - x| ≤ |w - x|

namespace Parabola

/-- The value at a distance from the base point. -/
def eval (q : Parabola ℝ) (t : ℝ) : ℝ := q.a * t ^ 2 + q.b * t + q.c

/-! ## Three points -/

section Through

variable {x₀ x₁ x₂ : ℝ}

/-- The determinant vanishes only where locations coincide. -/
theorem determinant_ne_zero (h₀₁ : x₀ ≠ x₁) (h₀₂ : x₀ ≠ x₂) (h₁₂ : x₁ ≠ x₂) :
    determinant x₀ x₁ x₂ ≠ 0 :=
  mul_ne_zero (mul_ne_zero (sub_ne_zero.2 h₀₂.symm) (sub_ne_zero.2 h₁₂.symm))
    (sub_ne_zero.2 h₀₁.symm)

/-- The parabola with base point `x₂` has these values at three locations. -/
structure Interpolates (q : Parabola ℝ) (x₀ x₁ x₂ y₀ y₁ y₂ : ℝ) : Prop where
  oldest : q.eval (x₀ - x₂) = y₀
  middle : q.eval (x₁ - x₂) = y₁
  newest : q.eval (x₂ - x₂) = y₂

/-- Cramer's rule gives a parabola through the points. -/
theorem interpolates_through (h : determinant x₀ x₁ x₂ ≠ 0) (y₀ y₁ y₂ : ℝ) :
    (through ⟨x₀, y₀⟩ ⟨x₁, y₁⟩ ⟨x₂, y₂⟩).Interpolates x₀ x₁ x₂ y₀ y₁ y₂ where
  oldest := by
    simp only [eval, through]
    -- without the denominators this is an identity of polynomials
    field_simp
    unfold determinant
    ring
  middle := by
    simp only [eval, through]
    field_simp
    unfold determinant
    ring
  newest := by simp [eval]

/-- Two parabolas with the same values at three distinct locations are the same. -/
theorem Interpolates.unique {q q' : Parabola ℝ} {y₀ y₁ y₂ : ℝ}
    (h : q.Interpolates x₀ x₁ x₂ y₀ y₁ y₂) (h' : q'.Interpolates x₀ x₁ x₂ y₀ y₁ y₂)
    (h₀₁ : x₀ ≠ x₁) (h₀₂ : x₀ ≠ x₂) (h₁₂ : x₁ ≠ x₂) : q = q' := by
  -- at the base point nothing but the constant coefficient is left
  have hc : q.c = q'.c := by
    have := h.newest.trans h'.newest.symm
    simpa [eval] using this
  -- at the other two locations the base point can be divided out
  have hline {x y : ℝ} (hx : x ≠ x₂) (hq : q.eval (x - x₂) = y) (hq' : q'.eval (x - x₂) = y) :
      (q.a - q'.a) * (x - x₂) + (q.b - q'.b) = 0 := by
    refine (mul_eq_zero.1 ?_).resolve_left (sub_ne_zero.2 hx)
    unfold eval at hq hq'
    linear_combination hq - hq' - hc
  have hold := hline h₀₂ h.oldest h'.oldest
  have hmid := hline h₁₂ h.middle h'.middle
  have ha : q.a = q'.a := by
    refine sub_eq_zero.1 ((mul_eq_zero.1 ?_).resolve_right (sub_ne_zero.2 h₀₁))
    linear_combination hold - hmid
  have hb : q.b = q'.b := by
    rw [ha] at hold
    linear_combination hold
  cases q
  cases q'
  simp_all

/-- Cramer's rule gives the parabola through the points, and there is no other. -/
theorem eq_through_iff (h₀₁ : x₀ ≠ x₁) (h₀₂ : x₀ ≠ x₂) (h₁₂ : x₁ ≠ x₂) {y₀ y₁ y₂ : ℝ}
    {q : Parabola ℝ} :
    q.Interpolates x₀ x₁ x₂ y₀ y₁ y₂ ↔ q = through ⟨x₀, y₀⟩ ⟨x₁, y₁⟩ ⟨x₂, y₂⟩ := by
  have hthrough := interpolates_through (determinant_ne_zero h₀₁ h₀₂ h₁₂) y₀ y₁ y₂
  constructor
  · intro h
    exact h.unique hthrough h₀₁ h₀₂ h₁₂
  · rintro rfl
    exact hthrough

end Through

/-! ## Zeros -/

section Zeros

variable {q : Parabola ℝ} {t : ℝ}

/-- A zero makes the discriminant a square. -/
theorem discriminant_eq_sq (h : q.eval t = 0) : q.discriminant = (2 * q.a * t + q.b) ^ 2 := by
  unfold eval at h
  unfold discriminant
  linear_combination (-4 * q.a) * h

/-- A parabola that has a zero has no negative discriminant. -/
theorem discriminant_nonneg (h : q.eval t = 0) : 0 ≤ q.discriminant := by
  rw [discriminant_eq_sq h]
  exact sq_nonneg _

/-- Both terms of the denominator have the same sign. -/
theorem abs_denominator (q : Parabola ℝ) {root : ℝ} (h : 0 ≤ root) :
    |q.denominator root| = |q.b| + root := by
  unfold denominator
  -- the sign of the root is chosen to be that of `b`
  split
  · next hb => rw [abs_of_nonneg hb, abs_of_nonneg (add_nonneg hb h)]
  · next hb =>
    have hb := not_le.1 hb
    rw [abs_of_neg hb, abs_of_neg (by linarith)]
    ring

/-- The denominator solves the equation that the zeros solve, turned over. -/
theorem denominator_sq {root : ℝ} (h : root ^ 2 = q.discriminant) :
    q.denominator root ^ 2 - 2 * q.b * q.denominator root + 4 * q.a * q.c = 0 := by
  unfold discriminant at h
  unfold denominator
  split <;> linear_combination h

/-- The step leads to a zero. -/
theorem eval_nearestZero {root : ℝ} (h : root ^ 2 = q.discriminant)
    (hden : q.denominator root ≠ 0) : q.eval (q.nearestZero root) = 0 := by
  have hsq := denominator_sq h
  -- with `t = -2 c / d` the value is `c (d ^ 2 - 2 b d + 4 a c) / d ^ 2`
  unfold eval nearestZero
  field_simp
  linear_combination q.c * hsq

/-- No zero is closer to the base point than the numerator and the denominator allow. -/
theorem two_mul_abs_c_le (h : q.eval t = 0) :
    2 * |q.c| ≤ |t| * |q.denominator (√q.discriminant)| := by
  -- a zero makes `b t + 2 c` as large as the root of the discriminant times `t`
  have hsq : (q.b * t + 2 * q.c) ^ 2 = (t * √q.discriminant) ^ 2 := by
    rw [mul_pow, Real.sq_sqrt (discriminant_nonneg h)]
    unfold eval at h
    unfold discriminant
    linear_combination (4 * q.c) * h
  have habs : |q.b * t + 2 * q.c| = |t| * √q.discriminant := by
    rw [(sq_eq_sq_iff_abs_eq_abs _ _).1 hsq, abs_mul, abs_of_nonneg (Real.sqrt_nonneg _)]
  calc 2 * |q.c| = |(q.b * t + 2 * q.c) - q.b * t| := by
        rw [add_sub_cancel_left, abs_mul, abs_two]
    _ ≤ |q.b * t + 2 * q.c| + |q.b * t| := abs_sub _ _
    _ = |t| * |q.denominator (√q.discriminant)| := by
        rw [habs, abs_mul, abs_denominator q (Real.sqrt_nonneg _)]
        ring

/-- The step leads to the nearest zero. -/
theorem abs_nearestZero_le (hden : q.denominator (√q.discriminant) ≠ 0) (h : q.eval t = 0) :
    |q.nearestZero (√q.discriminant)| ≤ |t| := by
  unfold nearestZero
  rw [abs_div, abs_mul, abs_neg, abs_two, div_le_iff₀ (abs_pos.2 hden)]
  exact two_mul_abs_c_le h

/-- Where there is a zero, but not at the base point, there is a step. -/
theorem denominator_ne_zero (h : q.eval t = 0) (hc : q.c ≠ 0) :
    q.denominator (√q.discriminant) ≠ 0 := by
  intro hden
  have hle := two_mul_abs_c_le h
  -- without a denominator there would be room for `c = 0` only
  rw [hden, abs_zero, mul_zero] at hle
  exact absurd (abs_pos.2 hc) (by linarith)

/-- No stand-in is needed for the root of a discriminant that is not negative. -/
theorem step_of_nonneg (fallback : ℝ) (hdisc : 0 ≤ q.discriminant) :
    q.step Real.sqrt fallback = q.nearestZero (√q.discriminant) := by
  unfold step
  rw [if_neg (not_lt.2 hdisc)]

/-- Seen from the base point, wherever it is, the step leads to the nearest zero. -/
theorem isNearestZero (base fallback : ℝ) (hdisc : 0 ≤ q.discriminant)
    (hden : q.denominator (√q.discriminant) ≠ 0) :
    IsNearestZero (fun x => q.eval (x - base)) base (base + q.step Real.sqrt fallback) where
  eq_zero := by
    rw [add_sub_cancel_left, step_of_nonneg fallback hdisc]
    exact eval_nearestZero (Real.sq_sqrt hdisc) hden
  abs_sub_le w hw := by
    rw [add_sub_cancel_left, step_of_nonneg fallback hdisc]
    exact abs_nearestZero_le hden hw

end Zeros

/-! ## Polynomials -/

/-- A polynomial of degree two or less is the parabola through any three of its points. -/
theorem eval_through_polynomial {x₀ x₁ x₂ : ℝ} (h₀₁ : x₀ ≠ x₁) (h₀₂ : x₀ ≠ x₂) (h₁₂ : x₁ ≠ x₂)
    {p : Polynomial ℝ} (hp : p.natDegree ≤ 2) (x : ℝ) :
    (through ⟨x₀, p.eval x₀⟩ ⟨x₁, p.eval x₁⟩ ⟨x₂, p.eval x₂⟩).eval (x - x₂) = p.eval x := by
  -- the coefficients after moving the origin to the base point
  have htaylor (y : ℝ) : p.eval y =
      eval ⟨p.coeff 2, 2 * p.coeff 2 * x₂ + p.coeff 1, p.eval x₂⟩ (y - x₂) := by
    have hsum (y : ℝ) : p.eval y = p.coeff 0 + p.coeff 1 * y + p.coeff 2 * y ^ 2 := by
      rw [Polynomial.eval_eq_sum_range' (Nat.lt_succ_of_le hp)]
      simp [Finset.sum_range_succ]
    unfold eval
    rw [hsum y, hsum x₂]
    ring
  rw [htaylor x, ← (eq_through_iff h₀₁ h₀₂ h₁₂).1]
  exact ⟨(htaylor x₀).symm, (htaylor x₁).symm, (htaylor x₂).symm⟩

/-- The step of Muller's method over the real numbers.  The determinant of three distinct
    locations is not zero, and the parabola that is put through any three points above them is
    the only one that has their values.  From its base point, wherever it lies, a parabola with a
    discriminant that is not negative and a denominator that is not zero sends the step to the
    nearest of its zeros.  So on a polynomial of degree two or less that has a zero, but not at
    the newest location, there is a step, and it leads to a zero of the polynomial to which no
    other is closer. -/
theorem through_isNearestZero (x₀ x₁ x₂ fallback : ℝ) (h₀₁ : x₀ ≠ x₁) (h₀₂ : x₀ ≠ x₂)
    (h₁₂ : x₁ ≠ x₂) :
    determinant x₀ x₁ x₂ ≠ 0 ∧
      (∀ (y₀ y₁ y₂ : ℝ) (q : Parabola ℝ),
        (q.a * (x₀ - x₂) ^ 2 + q.b * (x₀ - x₂) + q.c = y₀ ∧
          q.a * (x₁ - x₂) ^ 2 + q.b * (x₁ - x₂) + q.c = y₁ ∧
          q.a * (x₂ - x₂) ^ 2 + q.b * (x₂ - x₂) + q.c = y₂) ↔
        q = through ⟨x₀, y₀⟩ ⟨x₁, y₁⟩ ⟨x₂, y₂⟩) ∧
      (∀ q : Parabola ℝ, 0 ≤ q.discriminant → q.denominator (√q.discriminant) ≠ 0 →
        IsNearestZero (fun x => q.a * (x - x₂) ^ 2 + q.b * (x - x₂) + q.c) x₂
          (x₂ + q.step Real.sqrt fallback)) ∧
      ∀ p : Polynomial ℝ, p.natDegree ≤ 2 → (∃ z, p.eval z = 0) → p.eval x₂ ≠ 0 →
        ∃ q : Parabola ℝ, q = through ⟨x₀, p.eval x₀⟩ ⟨x₁, p.eval x₁⟩ ⟨x₂, p.eval x₂⟩ ∧
          0 ≤ q.discriminant ∧ q.denominator (√q.discriminant) ≠ 0 ∧
          IsNearestZero (fun x => p.eval x) x₂ (x₂ + q.step Real.sqrt fallback) := by
  refine ⟨determinant_ne_zero h₀₁ h₀₂ h₁₂, fun y₀ y₁ y₂ q => ?_,
    fun q => isNearestZero x₂ fallback, fun p hp hz hne => ?_⟩
  · rw [← eq_through_iff h₀₁ h₀₂ h₁₂]
    exact ⟨fun h => ⟨h.1, h.2.1, h.2.2⟩, fun h => ⟨h.oldest, h.middle, h.newest⟩⟩
  · obtain ⟨z, hz⟩ := hz
    have heval := eval_through_polynomial h₀₁ h₀₂ h₁₂ hp
    -- the polynomial is its own parabola, which therefore has a zero
    have hzero := (heval z).trans hz
    have hden := denominator_ne_zero hzero hne
    refine ⟨_, rfl, discriminant_nonneg hzero, hden, ?_⟩
    have hnearest := isNearestZero x₂ fallback (discriminant_nonneg hzero) hden
    simp only [heval] at hnearest
    exact hnearest

/-- From `7 / 2`, `4` and `9 / 2`, one step finds the greater of the zeros of `x ^ 2 - 5 x + 6`. -/
theorem through_isNearestZero_quadratic :
    ((7 / 2 : ℝ) ≠ 4 ∧ (7 / 2 : ℝ) ≠ 9 / 2 ∧ (4 : ℝ) ≠ 9 / 2) ∧
      ∃ q : Parabola ℝ, q = ⟨1, 4, 15 / 4⟩ ∧ 9 / 2 + q.step Real.sqrt (1 / 10) = 3 ∧
        IsNearestZero (fun x => x ^ 2 - 5 * x + 6) (9 / 2) 3 := by
  refine ⟨by norm_num, ⟨1, 4, 15 / 4⟩, rfl, ?_⟩
  have hstep : 9 / 2 + step Real.sqrt (1 / 10) ⟨1, 4, 15 / 4⟩ = 3 := by
    norm_num [step, nearestZero, denominator, discriminant]
  obtain ⟨-, -, -, hpolynomial⟩ := through_isNearestZero (7 / 2) 4 (9 / 2) (1 / 10)
    (by norm_num) (by norm_num) (by norm_num)
  obtain ⟨q, hq, -, -, hnearest⟩ := hpolynomial
    (.X ^ 2 - .C 5 * .X + .C 6) (by compute_degree) ⟨3, by norm_num⟩ (by norm_num)
  obtain rfl : q = ⟨1, 4, 15 / 4⟩ := by
    rw [hq]
    norm_num [through, determinant]
  rw [hstep] at hnearest
  refine ⟨hstep, ?_⟩
  simpa using hnearest

end Parabola

end ScalarRoots
