import ScalarRoots.Proofs.Binary64.Arithmetic

/-!
# Rounding errors and range

A finite number stands for a fraction.  The difference, the product and the quotient of two
finite numbers are finite as long as the exact result is within three quarters of the way to
infinity, and then they are off by at most one part in `2 ^ 53`.  Products and quotients are off
by up to half of the least positive number besides, since they may underflow; differences
never do.

## Key results

- `toRat`: the fraction that a finite number stands for
- `abs_roundUnits_sub_le` / `abs_roundUnits_intCast_sub_le`: how far rounding goes
- `IsTooLarge` / `IsTooSmall`: exact results that are out of range
- `IsClose` / `IsCloseOrSmall`: results that are off by a rounding error
- `toRat_sub` / `toRat_mul` / `toRat_div`: the operations and their errors
-/

namespace ScalarRoots.Binary64

/-! ## Rounding errors, in units -/

/-- Below fifty-three binary places, magnitudes are rounded to whole units. -/
theorem roundMagnitude_of_lt {q : ℚ} (hq : 0 ≤ q) (h : q < 2 ^ 53) :
    roundMagnitude q = nearestEven q := by
  rcases hq.eq_or_lt with rfl | hpos
  · rw [roundMagnitude_zero]
    exact_mod_cast (nearestEven_natCast 0).symm
  -- a short number has units for its last place
  · have hulp : ulpExponent q = 0 := Nat.le_zero.1 (ulpExponent_le hpos h)
    rw [roundMagnitude, hulp, pow_zero, pow_zero, div_one, mul_one]

/-- A magnitude is rounded by at most one part in `2 ^ 53`, and half a unit where units end. -/
theorem abs_roundMagnitude_sub_le_add {q : ℚ} (hq : 0 ≤ q) :
    |(roundMagnitude q : ℚ) - q| ≤ q / 2 ^ 53 + 1 / 2 := by
  -- a short number is off by half a unit, a long one by a part of itself
  rcases lt_or_ge q (2 ^ 53) with hshort | hlong
  · rw [roundMagnitude_of_lt hq hshort]
    exact (abs_nearestEven_sub_le hq).trans (le_add_of_nonneg_left (by positivity))
  · have hnormal : (2 : ℚ) ^ 52 ≤ q := hlong.trans' (by norm_num)
    exact (abs_roundMagnitude_sub_le hnormal).trans (le_add_of_nonneg_right (by norm_num))

/-- Short of infinity, the error of a number is that of its magnitude. -/
theorem abs_roundUnits_sub {q : ℚ} (h : |roundUnits q| < infinityUnits) :
    |(roundUnits q : ℚ) - q| = abs ((roundMagnitude |q| : ℚ) - |q|) := by
  have hround : (roundUnits |q| : ℚ) = roundMagnitude |q| := by
    rw [← roundUnits_abs] at h
    exact_mod_cast roundUnits_eq_roundMagnitude (abs_nonneg q) h
  rw [← hround]
  -- rounding respects the sign, so a negative number is off by what its magnitude is
  rcases le_total 0 q with hq | hq
  · rw [abs_of_nonneg hq]
  · rw [abs_of_nonpos hq, roundUnits_neg, Int.cast_neg, ← neg_add', abs_neg, ← sub_eq_add_neg]

/-- The same for numbers of either sign. -/
theorem abs_roundUnits_sub_le {q : ℚ} (h : |roundUnits q| < infinityUnits) :
    |(roundUnits q : ℚ) - q| ≤ |q| / 2 ^ 53 + 1 / 2 :=
  (abs_roundUnits_sub h).trans_le (abs_roundMagnitude_sub_le_add (abs_nonneg q))

/-- Whole units are not cut off, so the half unit does not occur. -/
theorem abs_roundUnits_intCast_sub_le {n : ℤ} (h : |roundUnits n| < infinityUnits) :
    |(roundUnits n : ℚ) - n| ≤ |(n : ℚ)| / 2 ^ 53 := by
  have habs : |(n : ℚ)| = n.natAbs := by rw [Nat.cast_natAbs, Int.cast_abs]
  rw [abs_roundUnits_sub h, habs]
  exact abs_roundMagnitude_natCast_sub_le _

/-! ## Exact values -/

/-- The fraction that a finite number stands for. -/
def toRat (x : Float) : ℚ := units x / unitsPerOne

/-- The least positive number. -/
def leastPositive : ℚ := 2 ^ leastExponent

/-- The least positive number is one unit. -/
theorem leastPositive_mul_unitsPerOne : leastPositive * unitsPerOne = 1 := by
  rw [leastPositive, unitsPerOne, ← zpow_add₀ two_ne_zero, add_neg_cancel, zpow_zero]

/-- As a power of two, it is positive. -/
theorem leastPositive_pos : 0 < leastPositive := zpow_pos two_pos _

/-- The least positive number as a fraction of one. -/
theorem leastPositive_eq : leastPositive = 1 / unitsPerOne :=
  eq_one_div_of_mul_eq_one_left leastPositive_mul_unitsPerOne

/-- From a fraction back to units. -/
theorem units_eq_toRat_mul (x : Float) : (units x : ℚ) = toRat x * unitsPerOne :=
  (div_mul_cancel₀ _ unitsPerOne_pos.ne').symm

/-- Zero is the fraction of no other number of units. -/
theorem toRat_eq_zero_iff {x : Float} : toRat x = 0 ↔ units x = 0 := by
  rw [toRat, div_eq_zero_iff, Int.cast_eq_zero, or_iff_left unitsPerOne_pos.ne']

/-- Zero stands for zero. -/
theorem toRat_zero : toRat 0 = 0 := toRat_eq_zero_iff.2 units_zero

/-- Equal numbers stand for the same fraction. -/
theorem toRat_of_beq {x y : Float} (h : (x == y) = true) : toRat x = toRat y := by
  rw [toRat, toRat, (beq_iff.1 h).2]

/-- Finite numbers that stand for the same fraction are equal. -/
theorem beq_of_toRat {x y : Float} (hx : x.isFinite = true) (hy : y.isFinite = true)
    (h : toRat x = toRat y) : (x == y) = true := by
  have hunits := congrArg (· * unitsPerOne) h
  simp only [← units_eq_toRat_mul] at hunits
  exact beq_iff.2 ⟨⟨isNaN_of_isFinite hx, isNaN_of_isFinite hy⟩, by exact_mod_cast hunits⟩

/-- Different numbers are at least the least positive number apart. -/
theorem leastPositive_le_abs_sub {x y : Float} (h : toRat x - toRat y ≠ 0) :
    leastPositive ≤ |toRat x - toRat y| := by
  have hdiff : toRat x - toRat y = (units x - units y : ℤ) / unitsPerOne := by
    rw [toRat, toRat, ← sub_div, Int.cast_sub]
  rw [hdiff] at h ⊢
  have hne : units x - units y ≠ 0 := fun hzero => h (by rw [hzero, Int.cast_zero, zero_div])
  -- a whole number of units that is not zero is at least one unit
  have hone : (1 : ℚ) ≤ |((units x - units y : ℤ) : ℚ)| := by
    rw [← Int.cast_abs]
    exact_mod_cast Int.one_le_abs hne
  rw [abs_div, abs_of_pos unitsPerOne_pos, leastPositive_eq]
  exact div_le_div_of_nonneg_right hone unitsPerOne_pos.le

/-- What is not zero is at least as large as the least positive number. -/
theorem leastPositive_le_abs {x : Float} (h : toRat x ≠ 0) : leastPositive ≤ |toRat x| := by
  have hsub : toRat x - toRat 0 = toRat x := by rw [toRat_zero, sub_zero]
  exact hsub ▸ leastPositive_le_abs_sub (hsub.symm ▸ h)

/-! ## Range -/

/-- Half of where the finite numbers end. -/
def largeBound : ℚ := 2 ^ 1023

/-- Larger in magnitude than half of where the finite numbers end. -/
def IsTooLarge (q : ℚ) : Prop := largeBound < |q|

/-- Smaller in magnitude than the least positive number, but not zero. -/
def IsTooSmall (q : ℚ) : Prop := q ≠ 0 ∧ |q| < leastPositive

/-- Three quarters of where the finite numbers end: a result may be as large as that and still
    be rounded to a finite number. -/
def safeBound : ℚ := 3 / 2 * largeBound

/-- Far more room than the small factors of the error bounds take up. -/
theorem le_largeBound : 1024 ≤ largeBound := by
  have hpow : (1024 : ℚ) = 2 ^ 10 := by norm_num
  rw [hpow, largeBound]
  exact pow_le_pow_right₀ one_le_two (by decide)

/-- What is not too large is safe. -/
theorem largeBound_le_safeBound : largeBound ≤ safeBound := by
  have := le_largeBound
  unfold safeBound
  linarith

/-- The least positive number is small against one. -/
theorem leastPositive_le : leastPositive ≤ 1 / 1024 := by
  have hpow : (2 : ℚ) ^ (-10 : ℤ) = 1 / 1024 := by norm_num
  rw [leastPositive, ← hpow]
  exact zpow_le_zpow_right₀ one_le_two (by decide)

/-- Where infinity begins, in units. -/
theorem infinityUnits_eq : infinityUnits = 4 * 2 ^ 2096 := by
  have hexp : (greatestExponent - leastExponent).toNat = 2045 := by decide
  have hfour : 2 ^ 53 = 4 * 2 ^ 51 := by decide
  rw [infinityUnits, hexp, hfour, mul_assoc, ← pow_add]

/-- Three quarters of that, in units. -/
theorem safeBound_mul_unitsPerOne : safeBound * unitsPerOne = 3 * 2 ^ 2096 := by
  have hunits : unitsPerOne = 2 ^ 1074 := zpow_natCast 2 1074
  calc safeBound * unitsPerOne = 3 / 2 * (2 ^ 1023 * 2 ^ 1074) := by
        rw [safeBound, hunits, mul_assoc, largeBound]
    _ = 3 / 2 * (2 ^ 2096 * 2) := by rw [← pow_add, ← pow_succ]
    _ = 3 * 2 ^ 2096 := by
        -- the power is too large to be computed
        generalize (2 : ℚ) ^ 2096 = y
        ring

/-- What is within the bound is not rounded to infinity. -/
theorem abs_roundUnits_lt_infinity {q : ℚ} (h : |q| ≤ safeBound) :
    |roundUnits (q * unitsPerOne)| < infinityUnits := by
  have hlt : 3 * 2 ^ 2096 < infinityUnits := by
    -- stated for every exponent, so that the power is not computed
    have hthree (k : ℕ) : 3 * 2 ^ k < 4 * 2 ^ k := by
      have := Nat.two_pow_pos k
      omega
    rw [infinityUnits_eq]
    exact hthree 2096
  -- the bound itself is a number of two binary places, and exact
  have hround := roundUnits_mul_two_pow (m := 3) (k := 2096) (by decide) hlt.le
  rw [Nat.cast_ofNat, ← safeBound_mul_unitsPerOne] at hround
  have hsafe : |q * unitsPerOne| ≤ |safeBound * unitsPerOne| := by
    rw [abs_mul, abs_mul]
    exact mul_le_mul_of_nonneg_right (h.trans (le_abs_self _)) (abs_nonneg _)
  calc |roundUnits (q * unitsPerOne)| ≤ |roundUnits (safeBound * unitsPerOne)| :=
        abs_roundUnits_le hsafe
    _ = (3 * 2 ^ 2096 : ℕ) := by rw [hround, Nat.abs_cast]
    _ < infinityUnits := Int.ofNat_lt.2 hlt

/-! ## Errors -/

/-- `p` is off from `q` by at most one part in `2 ^ 53`. -/
def IsClose (p q : ℚ) : Prop := |p - q| ≤ |q| / 2 ^ 53

/-- `p` is off from `q` by at most that and half of the least positive number. -/
def IsCloseOrSmall (p q : ℚ) : Prop := |p - q| ≤ |q| / 2 ^ 53 + leastPositive / 2

namespace IsClose

variable {p q p' q' : ℚ}

/-- One part in `2 ^ 53` is less than a percent. -/
theorem abs_le (h : IsClose p q) : |p| ≤ 101 / 100 * |q| := by
  unfold IsClose at h
  -- the error and the exact result make up what is rounded
  have hadd : |p| ≤ |p - q| + |q| := by simpa using abs_add_le (p - q) q
  have := abs_nonneg q
  linarith

/-- Nor does it shrink by more than a percent. -/
theorem le_abs (h : IsClose p q) : |q| ≤ 101 / 100 * |p| := by
  unfold IsClose at h
  have hadd : |q| ≤ |q - p| + |p| := by simpa using abs_add_le (q - p) p
  rw [abs_sub_comm] at hadd
  have := abs_nonneg p
  linarith

/-- Nothing but zero is rounded to zero. -/
theorem eq_zero_iff (h : IsClose p q) : p = 0 ↔ q = 0 := by
  constructor
  · intro hp
    have hle := h.le_abs
    rw [hp, abs_zero, mul_zero] at hle
    exact abs_nonpos_iff.1 hle
  · intro hq
    have hle := h.abs_le
    rw [hq, abs_zero, mul_zero] at hle
    exact abs_nonpos_iff.1 hle

/-- A product of two rounded factors grows by less than three percent. -/
theorem abs_mul_le (h : IsClose p q) (h' : IsClose p' q') :
    |p * p'| ≤ 103 / 100 * (|q| * |q'|) := by
  have hnonneg := mul_nonneg (abs_nonneg q) (abs_nonneg q')
  rw [abs_mul]
  calc |p| * |p'| ≤ (101 / 100 * |q|) * (101 / 100 * |q'|) :=
        mul_le_mul h.abs_le h'.abs_le (abs_nonneg _) (by positivity)
    _ ≤ 103 / 100 * (|q| * |q'|) := by linarith

/-- A further factor, if exact, leaves the relative error as it is. -/
theorem mul_left (h : IsClose p q) (a : ℚ) : IsClose (a * p) (a * q) := by
  unfold IsClose
  rw [← mul_sub, abs_mul, abs_mul, mul_div_assoc]
  exact mul_le_mul_of_nonneg_left h (abs_nonneg _)

end IsClose

/-! ## Operations -/

/-- What an operation gives whose exact result `q` is within the bound. -/
theorem toRat_of_units {z : Float} {q : ℚ} (hnan : z.isNaN = false)
    (hunits : units z = roundUnits (q * unitsPerOne)) (h : |q| ≤ safeBound) :
    z.isFinite = true ∧ IsCloseOrSmall (toRat z) q := by
  have hlt := abs_roundUnits_lt_infinity h
  refine ⟨isFinite_iff.2 ⟨hnan, hunits ▸ hlt⟩, ?_⟩
  have herror := abs_roundUnits_sub_le hlt
  rw [← hunits, units_eq_toRat_mul, ← sub_mul, abs_mul, abs_mul, abs_of_pos unitsPerOne_pos]
    at herror
  -- the error in units is the error of the fraction, scaled
  refine le_of_mul_le_mul_right (herror.trans_eq ?_) unitsPerOne_pos
  rw [add_mul, div_mul_eq_mul_div, div_mul_eq_mul_div, leastPositive_mul_unitsPerOne]

section Operations

variable {x y : Float} (hx : x.isFinite = true) (hy : y.isFinite = true)

include hx hy

/-- A difference is the rounded difference of the fractions. -/
theorem units_sub_eq_roundUnits :
    units (x - y) = roundUnits ((toRat x - toRat y) * unitsPerOne) := by
  rw [(units_sub hx hy).2, sub_mul, ← units_eq_toRat_mul, ← units_eq_toRat_mul]

/-- However large a difference is, it does not underflow. -/
theorem isClose_sub (hfin : (x - y).isFinite = true) :
    IsClose (toRat (x - y)) (toRat x - toRat y) := by
  have hunits := units_sub_eq_roundUnits hx hy
  -- both numbers are whole units, and so is their difference
  have hexact : (toRat x - toRat y) * unitsPerOne = (units x - units y : ℤ) := by
    rw [Int.cast_sub, sub_mul, ← units_eq_toRat_mul, ← units_eq_toRat_mul]
  have hlt := (isFinite_iff.1 hfin).2
  rw [hunits, hexact] at hlt
  have herror := abs_roundUnits_intCast_sub_le hlt
  rw [← hexact, ← hunits, units_eq_toRat_mul, ← sub_mul, abs_mul, abs_mul,
    abs_of_pos unitsPerOne_pos, mul_div_right_comm] at herror
  exact le_of_mul_le_mul_right herror unitsPerOne_pos

/-- A difference within the bound is finite and close. -/
theorem toRat_sub (h : |toRat x - toRat y| ≤ safeBound) :
    (x - y).isFinite = true ∧ IsClose (toRat (x - y)) (toRat x - toRat y) := by
  have hlt := abs_roundUnits_lt_infinity h
  rw [← units_sub_eq_roundUnits hx hy] at hlt
  have hfin := isFinite_iff.2 ⟨(units_sub hx hy).1, hlt⟩
  exact ⟨hfin, isClose_sub hx hy hfin⟩

/-- Only equal numbers have no difference. -/
theorem beq_of_sub_beq_zero (h : (x - y == 0) = true) : (x == y) = true := by
  have hunits := (beq_iff.1 h).2
  rw [units_zero] at hunits
  have hfin : (x - y).isFinite = true := by
    refine isFinite_iff.2 ⟨(units_sub hx hy).1, ?_⟩
    rw [hunits, abs_zero]
    exact (abs_nonneg _).trans_lt (isFinite_iff.1 hx).2
  -- a difference is off by a part of itself only, so it was zero before rounding
  have hzero := (isClose_sub hx hy hfin).eq_zero_iff.1 (toRat_eq_zero_iff.2 hunits)
  exact beq_of_toRat hx hy (sub_eq_zero.1 hzero)

/-- A product is the rounded product of the fractions. -/
theorem units_mul_eq_roundUnits :
    units (x * y) = roundUnits (toRat x * toRat y * unitsPerOne) := by
  rw [(units_mul hx hy).2, units_eq_toRat_mul, units_eq_toRat_mul, mul_mul_mul_comm, ← mul_assoc,
    mul_div_cancel_right₀ _ unitsPerOne_pos.ne']

/-- A product within the bound is finite and close, unless it underflows. -/
theorem toRat_mul (h : |toRat x * toRat y| ≤ safeBound) :
    (x * y).isFinite = true ∧ IsCloseOrSmall (toRat (x * y)) (toRat x * toRat y) :=
  toRat_of_units (units_mul hx hy).1 (units_mul_eq_roundUnits hx hy) h

/-- A quotient is the rounded quotient of the fractions. -/
theorem units_div_eq_roundUnits (hne : toRat y ≠ 0) :
    units (x / y) = roundUnits (toRat x / toRat y * unitsPerOne) := by
  rw [(units_div hx hy (toRat_eq_zero_iff.not.1 hne)).2, units_eq_toRat_mul, units_eq_toRat_mul,
    mul_div_mul_right _ _ unitsPerOne_pos.ne', div_mul_eq_mul_div]

/-- A quotient within the bound is finite and close, unless it underflows. -/
theorem toRat_div (hne : toRat y ≠ 0) (h : |toRat x / toRat y| ≤ safeBound) :
    (x / y).isFinite = true ∧ IsCloseOrSmall (toRat (x / y)) (toRat x / toRat y) :=
  toRat_of_units (units_div hx hy (toRat_eq_zero_iff.not.1 hne)).1
    (units_div_eq_roundUnits hx hy hne) h

end Operations

end ScalarRoots.Binary64
