import ScalarRoots.Proofs.Binary64.Order
import ScalarRoots.Proofs.Binary64.Rounded

/-!
# Arithmetic

Each of the four operations gives the binary64 number nearest to the exact result, as long as
its operands are finite.  A sum of finite numbers is exact in units, before it is rounded; so
is a product of units, once it is divided by the units that make one.

## Key results

- `units_add` / `units_sub` / `units_mul` / `units_div`: the operations, in units
- `isFinite_iff`: finite numbers have fewer units than infinity
- `roundUnits_units`: they are left alone by rounding
- `roundUnits_le_units` / `units_le_roundUnits`: so they bound rounded results
- `abs_units_sub_lt`: a distance that is computed to be small is small
- `isFinite_sub_of_abs_le`: a difference of numbers that are not too large is finite
- `isFinite_of_isFinite_sub` and its namesakes: a finite result has finite operands
- `units_div_of_not_isFinite`: but a finite quotient may have an infinite divisor
- `isNaN_sub`: subtracting a finite number does not make a NaN
-/

namespace ScalarRoots.Binary64

open Float.Model Float.Model.UnpackedFloat

/-! ## Finite numbers -/

/-- A sign does not change the magnitude. -/
theorem abs_apply (s : Sign) (n : ℕ) : |s.apply n| = n := by
  cases s with
  | negative => exact (abs_neg _).trans (abs_of_nonneg (Int.natCast_nonneg n))
  | positive => exact abs_of_nonneg (Int.natCast_nonneg n)

/-- Finite numbers have fewer units than infinity. -/
theorem isFinite_iff {x : Float} :
    x.isFinite = true ↔ x.isNaN = false ∧ |units x| < infinityUnits := by
  have hinf : 0 < infinityUnits := Nat.mul_pos (Nat.two_pow_pos _) (Nat.two_pow_pos _)
  have hcanonical := isCanonical_unpack x.toModel
  simp only [Float.isFinite, Float.isNaN, Float.Model.isFinite, Float.Model.isNaN, units]
  -- NaN is excluded by name, an infinity by its units
  cases hu : x.toModel.unpack with
  | notANumber =>
    constructor
    · intro h
      exact absurd h Bool.false_ne_true
    · intro h
      exact absurd h.1.symm Bool.false_ne_true
  | infinity s =>
    constructor
    · intro h
      exact absurd h Bool.false_ne_true
    · intro h
      rw [unitsOf, abs_apply] at h
      exact absurd h.2 (lt_irrefl _)
  | zero s =>
    refine ⟨fun _ => ⟨rfl, ?_⟩, fun _ => rfl⟩
    rw [unitsOf, abs_zero]
    exact Int.natCast_pos.2 hinf
  | finite s m e hm =>
    rw [hu] at hcanonical
    refine ⟨fun _ => ⟨rfl, ?_⟩, fun _ => rfl⟩
    rw [unitsOf, abs_apply]
    exact Int.ofNat_lt.2 (units_lt_infinity hcanonical)

/-- A number between two finite ones is finite. -/
theorem isFinite_of_between {a b x : Float} (ha : a.isFinite = true) (hb : b.isFinite = true)
    (hax : a ≤ x) (hxb : x ≤ b) : x.isFinite = true := by
  obtain ⟨⟨-, hnan⟩, hle⟩ := le_iff.1 hax
  obtain ⟨-, hle'⟩ := le_iff.1 hxb
  have hlow := neg_lt_of_abs_lt (isFinite_iff.1 ha).2
  have hhigh := lt_of_abs_lt (isFinite_iff.1 hb).2
  exact isFinite_iff.2 ⟨hnan, abs_lt.2 ⟨hlow.trans_le hle, hle'.trans_lt hhigh⟩⟩

/-- Zero has no units. -/
theorem units_zero : units 0 = 0 := by decide +kernel

/-- What a number with a sign counts for, as a fraction. -/
theorem cast_unitsOf_finite (s : Sign) {m : ℕ} {e : ℤ} (hm : 0 < m) (he : leastExponent ≤ e) :
    ((unitsOf (.finite s m e hm) : ℤ) : ℚ) = signed s (m * 2 ^ (e - leastExponent)) := by
  have hexp : (2 : ℚ) ^ (e - leastExponent) = 2 ^ (e - leastExponent).toNat := by
    rw [← zpow_natCast, Int.toNat_of_nonneg (Int.sub_nonneg_of_le he)]
  rw [hexp]
  cases s <;> simp only [unitsOf, Sign.apply, signed] <;> push_cast <;> rfl

/-- A finite number in canonical form is packed as it is. -/
theorem roundsTo_unitsOf {u : UnpackedFloat} (h : IsCanonical u) (hfin : u.isFinite = true) :
    RoundsTo u (unitsOf u) := by
  cases u with
  | infinity s => exact nomatch hfin
  | notANumber => exact nomatch hfin
  | zero s =>
    refine ⟨by cases s <;> rfl, ?_⟩
    rw [unitsOf, Int.cast_zero, roundUnits_zero]
    cases s <;> rfl
  | finite s m e hm =>
    obtain ⟨hbits, hlow, -⟩ := id h
    rw [RoundsTo, unpack_pack h, cast_unitsOf_finite s hm hlow]
    refine ⟨rfl, ?_⟩
    -- what counts is a whole number of units, with at most fifty-three binary places
    have hexact : ((m * 2 ^ (e - leastExponent).toNat : ℕ) : ℚ) = m * 2 ^ (e - leastExponent) := by
      push_cast
      rw [← zpow_natCast, Int.toNat_of_nonneg (Int.sub_nonneg_of_le hlow)]
    have hround : roundMagnitude (m * 2 ^ (e - leastExponent)) =
        m * 2 ^ (e - leastExponent).toNat := by
      rw [← hexact]
      push_cast
      exact roundMagnitude_mul_two_pow hbits
    -- so rounding and the bound at infinity both leave it alone
    rw [roundUnits_signed s (mul_nonneg m.cast_nonneg (zpow_pos two_pos _).le), hround,
      min_eq_left (units_lt_infinity h).le]
    rfl

/-- Rounding leaves finite numbers alone. -/
theorem roundUnits_units {x : Float} (hx : x.isFinite = true) : roundUnits (units x) = units x := by
  obtain ⟨-, hround⟩ := roundsTo_unitsOf (isCanonical_unpack x.toModel) hx
  rw [unpack_pack (isCanonical_unpack x.toModel)] at hround
  exact hround.symm

/-- A number that is not below an exact result is not below the rounded one either. -/
theorem roundUnits_le_units {q : ℚ} {x : Float} (hx : x.isFinite = true) (h : q ≤ units x) :
    roundUnits q ≤ units x :=
  (roundUnits_mono h).trans_eq (roundUnits_units hx)

/-- Nor is a number that is not above the exact result above the rounded one. -/
theorem units_le_roundUnits {q : ℚ} {x : Float} (hx : x.isFinite = true) (h : units x ≤ q) :
    units x ≤ roundUnits q :=
  (roundUnits_units hx).symm.trans_le (roundUnits_mono h)

/-- Magnitudes of finite numbers are left alone as well. -/
theorem roundUnits_natAbs_units {x : Float} (hx : x.isFinite = true) :
    roundUnits (units x).natAbs = (units x).natAbs := by
  rw [← Int.cast_natCast (R := ℚ), ← Int.abs_eq_natAbs, Int.cast_abs, roundUnits_abs,
    roundUnits_units hx]

/-! ## Sums and differences -/

/-- Moving a significand to a smaller exponent keeps what it counts for. -/
theorem apply_decreaseExponent (s : Sign) {m : ℕ} {e t : ℤ} (hm : 0 < m)
    (hlow : leastExponent ≤ e) (ht : t ≤ e) :
    ((s.apply (decreaseExponent m e t).1 : ℤ) : ℚ) * 2 ^ (t - leastExponent) =
      unitsOf (.finite s m e hm) := by
  -- the significand is shifted by as much as the exponent decreases
  have hvalue : (((decreaseExponent m e t).1 : ℕ) : ℚ) * 2 ^ (t - leastExponent) =
      m * 2 ^ (e - leastExponent) := by
    simp only [decreaseExponent, Nat.shiftLeft_eq]
    push_cast
    rw [mul_assoc, ← zpow_natCast, Int.toNat_of_nonneg (Int.sub_nonneg_of_le ht),
      ← zpow_add₀ two_ne_zero, sub_add_sub_cancel]
  rw [cast_unitsOf_finite s hm hlow, ← hvalue]
  cases s <;> simp only [Sign.apply, signed] <;> push_cast <;> ring

/-- Canonical parts are added exactly and then rounded. -/
theorem roundsTo_add {a b : UnpackedFloat} (ha : IsCanonical a) (hb : IsCanonical b)
    (hfa : a.isFinite = true) (hfb : b.isFinite = true) :
    RoundsTo (add Format.binary64 a b) (unitsOf a + unitsOf b) := by
  cases a with
  | infinity s => exact nomatch hfa
  | notANumber => exact nomatch hfa
  | zero s =>
    rw [unitsOf, Int.cast_zero, zero_add]
    cases b with
    | infinity s' => exact nomatch hfb
    | notANumber => exact nomatch hfb
    | zero s' => cases s <;> cases s' <;> exact roundsTo_unitsOf (u := .zero _) trivial rfl
    | finite s' m' e' hm' => exact roundsTo_unitsOf hb rfl
  | finite s m e hm =>
    cases b with
    | infinity s' => exact nomatch hfb
    | notANumber => exact nomatch hfb
    | zero s' =>
      have hzero : ((unitsOf (.zero s') : ℤ) : ℚ) = 0 := Int.cast_zero
      rw [hzero, add_zero]
      exact roundsTo_unitsOf ha rfl
    | finite s' m' e' hm' =>
      -- both summands are brought to the smaller exponent and added as integers
      rw [← apply_decreaseExponent s hm ha.2.1 (min_le_left e e'),
        ← apply_decreaseExponent s' hm' hb.2.1 (min_le_right e e'), ← add_mul, ← Int.cast_add]
      exact roundsTo_normalize _ _ _

/-- Turning over a sign negates what it is applied to. -/
theorem apply_neg (s : Sign) (n : ℤ) : (-s).apply n = -s.apply n := by
  cases s with
  | negative => exact (neg_neg n).symm
  | positive => rfl

/-- So negated parts count for the negated number of units. -/
theorem unitsOf_neg (a : UnpackedFloat) : unitsOf a.neg = -unitsOf a := by
  cases a with
  | infinity s => exact apply_neg s _
  | notANumber => rfl
  | zero s => rfl
  | finite s m e hm => exact apply_neg s _

/-- They are finite when the parts are. -/
theorem isFinite_neg (a : UnpackedFloat) : a.neg.isFinite = a.isFinite := by
  cases a <;> rfl

/-- A difference is the sum with the second operand negated. -/
theorem sub_eq_add_neg_unpacked (a b : UnpackedFloat) :
    sub Format.binary64 a b = add Format.binary64 a b.neg := by
  rcases a with s | _ | s | ⟨s, m, e, hm⟩ <;> rcases b with s' | _ | s' | ⟨s', m', e', hm'⟩ <;>
    try rfl
  -- only two finite numbers are left, and they are subtracted as integers
  simp only [UnpackedFloat.sub, UnpackedFloat.add, UnpackedFloat.neg, apply_neg, sub_eq_add_neg]

/-- Canonical parts are subtracted exactly and then rounded. -/
theorem roundsTo_sub {a b : UnpackedFloat} (ha : IsCanonical a) (hb : IsCanonical b)
    (hfa : a.isFinite = true) (hfb : b.isFinite = true) :
    RoundsTo (sub Format.binary64 a b) (unitsOf a - unitsOf b) := by
  have hcanonical : IsCanonical b.neg := by
    cases b <;> trivial
  have hadd := roundsTo_add ha hcanonical hfa ((isFinite_neg b).trans hfb)
  rwa [← sub_eq_add_neg_unpacked, unitsOf_neg, Int.cast_neg, ← sub_eq_add_neg] at hadd

/-- A sum of finite numbers is the nearest number to the exact one. -/
theorem units_add {x y : Float} (hx : x.isFinite = true) (hy : y.isFinite = true) :
    (x + y).isNaN = false ∧ units (x + y) = roundUnits (units x + units y) :=
  roundsTo_add (isCanonical_unpack _) (isCanonical_unpack _) hx hy

/-- So is a difference. -/
theorem units_sub {x y : Float} (hx : x.isFinite = true) (hy : y.isFinite = true) :
    (x - y).isNaN = false ∧ units (x - y) = roundUnits (units x - units y) :=
  roundsTo_sub (isCanonical_unpack _) (isCanonical_unpack _) hx hy

/-! ## Products and quotients -/

/-- How many units make one. -/
def unitsPerOne : ℚ := 2 ^ (-leastExponent)

/-- There are some. -/
theorem unitsPerOne_pos : 0 < unitsPerOne := zpow_pos two_pos _

/-- Signs multiply along with the magnitudes. -/
theorem signed_mul (s s' : Sign) (x y : ℚ) :
    signed (s * s') (x * y) = signed s x * signed s' y := by
  cases s <;> cases s' <;> simp only [signed, neg_mul, mul_neg, neg_neg]

/-- They are divided along with them as well. -/
theorem signed_div (s s' : Sign) (x y : ℚ) :
    signed (s / s') (x / y) = signed s x / signed s' y := by
  cases s <;> cases s' <;> simp only [signed, neg_div, div_neg, neg_neg] <;> rfl

/-- A factor without a sign of its own can be taken out. -/
theorem signed_mul_right (s : Sign) (x c : ℚ) : signed s (x * c) = signed s x * c := by
  cases s <;> simp only [signed, neg_mul]

/-- A zero of either sign is what zero is rounded to. -/
theorem roundsTo_zero (s : Sign) : RoundsTo (.zero s) 0 := by
  have hzero := roundsTo_unitsOf (u := .zero s) trivial rfl
  rwa [unitsOf, Int.cast_zero] at hzero

/-- The exponent of a product is not too large for its rounding. -/
theorem add_le_ulpOf_mul {s s' : Sign} {m m' : ℕ} {e e' : ℤ} {hm : 0 < m} {hm' : 0 < m'}
    (h : IsCanonical (.finite s m e hm)) (h' : IsCanonical (.finite s' m' e' hm')) :
    e + e' ≤ ulpOf (m * m') (e + e') := by
  obtain ⟨-, -, -, hlead⟩ := h
  obtain ⟨-, -, -, hlead'⟩ := h'
  have hpos : 0 < m * m' := Nat.mul_pos hm hm'
  rw [ulpOf_eq]
  by_cases hlong : 2 ^ 52 ≤ m * m'
  · have hlog := (Nat.le_log2 hpos.ne').2 hlong
    omega
  · -- with short significands, both exponents are the least one
    have hle : m ≤ m * m' := Nat.le_mul_of_pos_right m hm'
    have hle' : m' ≤ m * m' := Nat.le_mul_of_pos_left m' hm
    simp only [leastExponent] at *
    omega

/-- Canonical parts are multiplied exactly and then rounded. -/
theorem roundsTo_mul {a b : UnpackedFloat} (ha : IsCanonical a) (hb : IsCanonical b)
    (hfa : a.isFinite = true) (hfb : b.isFinite = true) :
    RoundsTo (mul Format.binary64 a b) (unitsOf a * unitsOf b / unitsPerOne) := by
  cases a with
  | infinity s => exact nomatch hfa
  | notANumber => exact nomatch hfa
  | zero s =>
    rw [unitsOf, Int.cast_zero, zero_mul, zero_div]
    cases b with
    | infinity s' => exact nomatch hfb
    | notANumber => exact nomatch hfb
    | zero s' => exact roundsTo_zero _
    | finite s' m' e' hm' => exact roundsTo_zero _
  | finite s m e hm =>
    cases b with
    | infinity s' => exact nomatch hfb
    | notANumber => exact nomatch hfb
    | zero s' =>
      have hzero : ((unitsOf (.zero s') : ℤ) : ℚ) = 0 := Int.cast_zero
      rw [hzero, mul_zero, zero_div]
      exact roundsTo_zero _
    | finite s' m' e' hm' =>
      have hpos : 0 < m * m' := Nat.mul_pos hm hm'
      -- two finite numbers: the product of the significands is exact and is rounded once
      have hnearest := roundsTo_roundWithAccuracy (s * s') (represents_exact (m * m'))
        (Nat.cast_pos.2 hpos) (.inl hpos) (add_le_ulpOf_mul ha hb)
      -- in units, one of the two scales has to be divided out
      have hvalue : ((m * m' : ℕ) : ℚ) * 2 ^ (e + e' - leastExponent) =
          (m * 2 ^ (e - leastExponent)) * (m' * 2 ^ (e' - leastExponent)) / unitsPerOne := by
        rw [unitsPerOne, div_eq_mul_inv, ← zpow_neg, neg_neg, Nat.cast_mul,
          show e + e' - leastExponent = (e - leastExponent) + (e' - leastExponent) + leastExponent
            by ring, zpow_add₀ two_ne_zero, zpow_add₀ two_ne_zero]
        ring
      rw [cast_unitsOf_finite s hm ha.2.1, cast_unitsOf_finite s' hm' hb.2.1, ← signed_mul]
      rw [hvalue] at hnearest
      rw [div_eq_mul_inv, ← signed_mul_right, ← div_eq_mul_inv]
      exact hnearest

/-- A product of finite numbers is the nearest number to the exact one. -/
theorem units_mul {x y : Float} (hx : x.isFinite = true) (hy : y.isFinite = true) :
    (x * y).isNaN = false ∧ units (x * y) = roundUnits (units x * units y / unitsPerOne) :=
  roundsTo_mul (isCanonical_unpack _) (isCanonical_unpack _) hx hy

/-- The quotient of two significands has enough places for its rounding, once the exponent of
    the dividend is as small as that. -/
theorem divCore_spec {m m' : ℕ} (hm : 0 < m) (hm' : 0 < m') (e e' : ℤ) :
    ∃ (n : ℕ) (t : ℤ), divCore Format.binary64 m e m' e' =
        (n / m', t, accuracyOfFraction (n % m') m') ∧
      0 < n ∧ (n : ℚ) * 2 ^ t = m * 2 ^ (e - e') ∧ (2 ^ 52 ≤ n / m' ∨ t ≤ leastExponent) := by
  -- the exponent and the shift that the division chooses
  set t := min (e - e')
    (Format.binary64.targetExponent (totalExponent m e - totalExponent m' e')) with ht
  set k := (e - e' - t).toNat with hk
  have hle : t ≤ e - e' := min_le_left _ _
  refine ⟨m <<< k, t, rfl, Nat.shiftLeft_pos_iff.2 hm, ?_, ?_⟩
  · rw [Nat.shiftLeft_eq]
    push_cast
    rw [mul_assoc, ← zpow_natCast, ← zpow_add₀ two_ne_zero,
      Int.toNat_of_nonneg (Int.sub_nonneg_of_le hle), sub_add_cancel]
  -- above the least exponent, the dividend was shifted far enough
  · rw [or_iff_not_imp_right]
    intro hlarge
    have hplaces : m'.log2 + 53 ≤ m.log2 + k := by
      simp only [Format.targetExponent, totalExponent, Format.mantissaBits, Format.minExponent,
        leastExponent] at ht hlarge
      omega
    rw [Nat.le_div_iff_mul_le hm', Nat.shiftLeft_eq]
    -- the shifted dividend has fifty-two binary places more than the divisor
    calc 2 ^ 52 * m' ≤ 2 ^ 52 * 2 ^ (m'.log2 + 1) :=
          Nat.mul_le_mul_left _ Nat.lt_log2_self.le
      _ = 2 ^ (m'.log2 + 53) := by ring
      _ ≤ 2 ^ (m.log2 + k) := Nat.pow_le_pow_right (by decide) hplaces
      _ = 2 ^ m.log2 * 2 ^ k := pow_add ..
      _ ≤ m * 2 ^ k := Nat.mul_le_mul_right _ (Nat.log2_self_le hm.ne')

/-- Canonical parts are divided as far as rounding needs, and then rounded. -/
theorem roundsTo_div {a b : UnpackedFloat} (ha : IsCanonical a) (hb : IsCanonical b)
    (hfa : a.isFinite = true) (hfb : b.isFinite = true) (hne : unitsOf b ≠ 0) :
    RoundsTo (div Format.binary64 a b) (unitsOf a * unitsPerOne / unitsOf b) := by
  cases b with
  | infinity s' => exact nomatch hfb
  | notANumber => exact nomatch hfb
  | zero s' => exact absurd rfl hne
  | finite s' m' e' hm' =>
    cases a with
    | infinity s => exact nomatch hfa
    | notANumber => exact nomatch hfa
    | zero s =>
      have hzero : ((unitsOf (.zero s) : ℤ) : ℚ) = 0 := Int.cast_zero
      rw [hzero, zero_mul, zero_div]
      exact roundsTo_zero _
    | finite s m e hm =>
      -- two finite numbers: the quotient has enough places, and a remainder
      obtain ⟨n, t, hcore, hn, hscale, hplaces⟩ := divCore_spec hm hm' e e'
      have hpos : (0 : ℚ) < n / m' := div_pos (Nat.cast_pos.2 hn) (Nat.cast_pos.2 hm')
      have hlead : 0 < n / m' ∨ t ≤ leastExponent := hplaces.imp_left (by omega)
      have hulp : t ≤ ulpOf (n / m') t := by
        rw [ulpOf_eq]
        rcases hplaces with hlong | hleast
        · have hlog := (Nat.le_log2 (by omega)).2 hlong
          omega
        · omega
      have hnearest := roundsTo_roundWithAccuracy (s / s') (represents_div n hm') hpos hlead hulp
      -- in units, the scales cancel up to the units of one
      have hvalue : (n / m' : ℚ) * 2 ^ (t - leastExponent) =
          (m * 2 ^ (e - leastExponent)) / (m' * 2 ^ (e' - leastExponent)) * unitsPerOne := by
        have hm'' : (m' : ℚ) ≠ 0 := Nat.cast_ne_zero.2 hm'.ne'
        rw [unitsPerOne, sub_eq_add_neg, zpow_add₀ two_ne_zero, ← mul_assoc, div_mul_eq_mul_div,
          hscale, show e - e' = (e - leastExponent) - (e' - leastExponent) by ring,
          zpow_sub₀ two_ne_zero (e - leastExponent)]
        field_simp
      rw [hvalue, signed_mul_right, signed_div, ← cast_unitsOf_finite s hm ha.2.1,
        ← cast_unitsOf_finite s' hm' hb.2.1, div_mul_eq_mul_div] at hnearest
      show RoundsTo (roundWithAccuracy _ _ (divCore _ m e m' e').1 (divCore _ m e m' e').2.1
        (divCore _ m e m' e').2.2) _
      rw [hcore]
      exact hnearest

/-- So is a quotient, where the divisor is not zero. -/
theorem units_div {x y : Float} (hx : x.isFinite = true) (hy : y.isFinite = true)
    (hne : units y ≠ 0) :
    (x / y).isNaN = false ∧ units (x / y) = roundUnits (units x * unitsPerOne / units y) :=
  roundsTo_div (isCanonical_unpack _) (isCanonical_unpack _) hx hy hne

/-! ## Halves -/

/-- One half has half of the units of one. -/
theorem units_half : (units 0.5 : ℚ) = unitsPerOne / 2 := by
  have hunits : units 0.5 = unitsOf (.finite .positive (2 ^ 52) (-53) (by decide)) := by
    decide +kernel
  rw [hunits, cast_unitsOf_finite _ _ (by decide), signed, unitsPerOne, Nat.cast_pow,
    Nat.cast_ofNat, div_eq_mul_inv, ← zpow_natCast, ← zpow_neg_one, ← zpow_add₀ two_ne_zero,
    ← zpow_add₀ two_ne_zero]
  rfl

/-- Half of a finite number is finite, and is rounded only if its last bit is lost. -/
theorem units_mul_half {x : Float} (hx : x.isFinite = true) :
    (x * 0.5).isFinite = true ∧ units (x * 0.5) = roundUnits (units x / 2) := by
  obtain ⟨hnan, hunits⟩ := units_mul (y := 0.5) hx (by decide +kernel)
  rw [units_half, mul_div_assoc, div_div, div_mul_cancel_right₀ unitsPerOne_pos.ne',
    ← div_eq_mul_inv] at hunits
  refine ⟨isFinite_iff.2 ⟨hnan, ?_⟩, hunits⟩
  -- a half is no larger than the whole, so it stays finite
  have hle : |(units x : ℚ) / 2| ≤ |(units x : ℚ)| := by
    rw [abs_div, abs_two]
    exact half_le_self (abs_nonneg _)
  calc |units (x * 0.5)| = |roundUnits (units x / 2)| := by rw [hunits]
    _ ≤ |roundUnits (units x)| := abs_roundUnits_le hle
    _ = |units x| := by rw [roundUnits_units hx]
    _ < infinityUnits := (isFinite_iff.1 hx).2

/-- The half on the left makes no difference to that. -/
theorem isFinite_half_mul {x : Float} (hx : x.isFinite = true) : (0.5 * x).isFinite = true := by
  obtain ⟨hnan, hunits⟩ := units_mul (x := 0.5) (by decide +kernel) hx
  obtain ⟨hfin, -⟩ := units_mul_half hx
  -- the two products are roundings of the same number
  obtain ⟨-, hunits'⟩ := units_mul (y := 0.5) hx (by decide +kernel)
  rw [mul_comm, ← hunits'] at hunits
  exact isFinite_iff.2 ⟨hnan, hunits ▸ (isFinite_iff.1 hfin).2⟩

/-! ## Magnitudes -/

/-- The magnitude of a number has the magnitude of its units. -/
theorem units_abs (x : Float) : units x.abs = |units x| := by
  rw [units, units, unpack_abs]
  cases x.toModel.unpack with
  | infinity s => exact (abs_apply s _).symm
  | notANumber => rfl
  | zero s => rfl
  | finite s m e hm => exact (abs_apply s _).symm

/-- A distance that is computed to be below a bound is below it exactly as well: one that is not
    would not be rounded to less than the bound. -/
theorem abs_units_sub_lt {x y t : Float} (hx : x.isFinite = true) (hy : y.isFinite = true)
    (ht : t.isFinite = true) (h : (y - x).abs < t) : |units y - units x| < units t := by
  obtain ⟨-, hlt⟩ := lt_iff.1 h
  rw [units_abs, (units_sub hy hx).2, ← roundUnits_abs] at hlt
  by_contra hge
  have hexact : (units t : ℚ) ≤ |(units y : ℚ) - units x| := by exact_mod_cast not_lt.1 hge
  exact not_lt.2 (units_le_roundUnits ht hexact) hlt

/-- Equal numbers have no distance. -/
theorem abs_sub_lt_of_beq {x y t : Float} (hx : x.isFinite = true) (hy : y.isFinite = true)
    (h : (x == y) = true) (ht : 0 < t) : (y - x).abs < t := by
  obtain ⟨hnan, hunits⟩ := units_sub hy hx
  rw [(beq_iff.1 h).2, sub_self, roundUnits_zero] at hunits
  obtain ⟨⟨-, hnan'⟩, hpos⟩ := lt_iff.1 ht
  rw [units_zero] at hpos
  refine lt_iff.2 ⟨⟨(isNaN_abs _).trans hnan, hnan'⟩, ?_⟩
  rwa [units_abs, hunits, abs_zero]

/-- Half of the greatest finite number. -/
def halfGreatest : Float := Float.ofBits 0x7fdfffffffffffff

/-- Twice the units of this number are those of the greatest finite one. -/
theorem roundUnits_two_mul_halfGreatest :
    roundUnits ((2 * units halfGreatest : ℤ) : ℚ) = 2 * units halfGreatest ∧
      2 * units halfGreatest < infinityUnits := by
  -- the greatest finite number is the word below infinity
  have hgreatest : 2 * units halfGreatest = units (Float.ofBits 0x7fefffffffffffff) := by
    decide +kernel
  have hfin : (Float.ofBits 0x7fefffffffffffff).isFinite = true := by decide +kernel
  rw [hgreatest]
  exact ⟨roundUnits_units hfin, lt_of_abs_lt (isFinite_iff.1 hfin).2⟩

/-- Numbers that are at most half of the greatest finite one have a finite difference. -/
theorem isFinite_sub_of_abs_le {x y : Float} (hx : x.abs ≤ halfGreatest)
    (hy : y.abs ≤ halfGreatest) : (x - y).isFinite = true := by
  obtain ⟨hround, hlt⟩ := roundUnits_two_mul_halfGreatest
  obtain ⟨⟨hnx, -⟩, hux⟩ := le_iff.1 hx
  obtain ⟨⟨hny, -⟩, huy⟩ := le_iff.1 hy
  rw [isNaN_abs] at hnx hny
  rw [units_abs] at hux huy
  -- numbers of that size are finite themselves
  have hfx := isFinite_iff.2 ⟨hnx, by have := abs_nonneg (units x); omega⟩
  have hfy := isFinite_iff.2 ⟨hny, by have := abs_nonneg (units y); omega⟩
  obtain ⟨hnan, hunits⟩ := units_sub hfx hfy
  have hgreatest : |2 * units halfGreatest| = 2 * units halfGreatest :=
    abs_of_nonneg (by have := abs_nonneg (units x); omega)
  have hexact : |units x - units y| ≤ |2 * units halfGreatest| :=
    calc |units x - units y| ≤ |units x| + |units y| := abs_sub _ _
      _ ≤ 2 * units halfGreatest := by omega
      _ = |2 * units halfGreatest| := hgreatest.symm
  -- rounding does not take the difference beyond the greatest finite number
  have hrounded : |units (x - y)| ≤ |2 * units halfGreatest| := by
    rw [hunits, ← hround, ← Int.cast_sub]
    exact abs_roundUnits_le (by exact_mod_cast hexact)
  rw [hgreatest] at hrounded
  exact isFinite_iff.2 ⟨hnan, hrounded.trans_lt hlt⟩

/-! ## Operands of finite results -/

/-- What is not finite is packed as it is. -/
private theorem isFinite_of_isFinite_pack {u : UnpackedFloat}
    (h : (Float.Model.pack u).unpack.isFinite = true) : u.isFinite = true := by
  cases u with
  | infinity s =>
    rw [unpack_pack (u := .infinity s) trivial] at h
    exact nomatch h
  | notANumber => exact nomatch h
  | zero s => rfl
  | finite s m e hm => rfl

/-- What is not finite cannot be made finite by adding to it. -/
private theorem isFinite_of_isFinite_add_unpacked {a b : UnpackedFloat}
    (h : (add Format.binary64 a b).isFinite = true) : a.isFinite = true ∧ b.isFinite = true := by
  cases a with
  | notANumber => exact nomatch h
  -- infinities of opposite signs make NaN, and any other sum with one is infinite
  | infinity s =>
    cases b with
    | infinity s' => cases s <;> cases s' <;> exact nomatch h
    | _ => exact nomatch h
  | _ =>
    cases b with
    | notANumber => exact nomatch h
    | infinity s' => exact nomatch h
    | _ => exact ⟨rfl, rfl⟩

/-- Nor by subtracting. -/
private theorem isFinite_of_isFinite_sub_unpacked {a b : UnpackedFloat}
    (h : (sub Format.binary64 a b).isFinite = true) : a.isFinite = true ∧ b.isFinite = true := by
  rw [sub_eq_add_neg_unpacked] at h
  obtain ⟨ha, hb⟩ := isFinite_of_isFinite_add_unpacked h
  exact ⟨ha, (isFinite_neg b).symm.trans hb⟩

/-- Nor by multiplying. -/
private theorem isFinite_of_isFinite_mul_unpacked {a b : UnpackedFloat}
    (h : (mul Format.binary64 a b).isFinite = true) : a.isFinite = true ∧ b.isFinite = true := by
  cases a with
  | notANumber => exact nomatch h
  | infinity s => cases b <;> exact nomatch h
  | _ =>
    cases b with
    | notANumber => exact nomatch h
    | infinity s' => exact nomatch h
    | _ => exact ⟨rfl, rfl⟩

/-- The divisor may be infinite, and then the quotient is zero. -/
private theorem isFinite_of_isFinite_div_unpacked {a b : UnpackedFloat}
    (h : (div Format.binary64 a b).isFinite = true) :
    a.isFinite = true ∧ (b.isFinite = true ∨ ∃ s, div Format.binary64 a b = .zero s) := by
  cases a with
  | notANumber => exact nomatch h
  | infinity s => cases b <;> exact nomatch h
  | _ =>
    cases b with
    | notANumber => exact nomatch h
    | infinity s' => exact ⟨rfl, .inr ⟨_, rfl⟩⟩
    | _ => exact ⟨rfl, .inl rfl⟩

/-- A finite sum has finite summands. -/
theorem isFinite_of_isFinite_add {x y : Float} (h : (x + y).isFinite = true) :
    x.isFinite = true ∧ y.isFinite = true :=
  isFinite_of_isFinite_add_unpacked (isFinite_of_isFinite_pack h)

/-- A finite difference is one of finite numbers. -/
theorem isFinite_of_isFinite_sub {x y : Float} (h : (x - y).isFinite = true) :
    x.isFinite = true ∧ y.isFinite = true :=
  isFinite_of_isFinite_sub_unpacked (isFinite_of_isFinite_pack h)

/-- A finite product has finite factors. -/
theorem isFinite_of_isFinite_mul {x y : Float} (h : (x * y).isFinite = true) :
    x.isFinite = true ∧ y.isFinite = true :=
  isFinite_of_isFinite_mul_unpacked (isFinite_of_isFinite_pack h)

/-- A finite quotient has a finite dividend, and a finite divisor unless it is zero. -/
theorem isFinite_of_isFinite_div {x y : Float} (h : (x / y).isFinite = true) :
    x.isFinite = true ∧ (y.isFinite = true ∨ units (x / y) = 0) := by
  obtain ⟨hx, hy | ⟨s, hs⟩⟩ := isFinite_of_isFinite_div_unpacked (isFinite_of_isFinite_pack h)
  · exact ⟨hx, .inl hy⟩
  -- the quotient by an infinity is a zero
  · have hunits : units (x / y) = unitsOf (Float.Model.pack (.zero s)).unpack := by rw [← hs]; rfl
    rw [unpack_pack (u := .zero s) trivial] at hunits
    exact ⟨hx, .inr hunits⟩

/-- Divided by an infinity, a finite number is zero. -/
theorem units_div_of_not_isFinite {x y : Float} (hx : x.isFinite = true) (hnan : y.isNaN = false)
    (hy : y.isFinite = false) : (x / y).isFinite = true ∧ units (x / y) = 0 := by
  have hzero : ∃ s, div Format.binary64 x.toModel.unpack y.toModel.unpack = .zero s := by
    simp only [Float.isFinite, Float.isNaN, Float.Model.isFinite, Float.Model.isNaN] at *
    cases hu : x.toModel.unpack <;> cases hv : y.toModel.unpack <;> rw [hu] at hx <;>
      rw [hv] at hnan hy <;> first | contradiction | exact ⟨_, rfl⟩
  obtain ⟨s, hs⟩ := hzero
  show (Float.Model.pack (div Format.binary64 _ _)).unpack.isFinite = true ∧
    unitsOf (Float.Model.pack (div Format.binary64 _ _)).unpack = 0
  rw [hs, unpack_pack (u := .zero s) trivial]
  exact ⟨rfl, rfl⟩

/-- An infinity stays what it is when a finite number is subtracted from it. -/
private theorem isNaN_infinity_sub {s : Sign} {b : UnpackedFloat} (h : b.isFinite = true) :
    (Float.Model.pack (sub Format.binary64 (.infinity s) b)).unpack.isNaN = false := by
  have hsub : sub Format.binary64 (.infinity s) b = .infinity s := by
    cases b with
    | infinity s' => exact nomatch h
    | notANumber => exact nomatch h
    | _ => rfl
  rw [hsub, unpack_pack (u := .infinity s) trivial]
  rfl

/-- Subtracting a finite number from what is no NaN does not make a NaN. -/
theorem isNaN_sub {x y : Float} (hx : x.isNaN = false) (hy : y.isFinite = true) :
    (x - y).isNaN = false := by
  by_cases hfin : x.isFinite = true
  · exact (units_sub hfin hy).1
  · -- then it is an infinity
    show (Float.Model.pack (sub Format.binary64 x.toModel.unpack _)).unpack.isNaN = false
    simp only [Float.isFinite, Float.isNaN, Float.Model.isFinite, Float.Model.isNaN] at hx hfin
    cases hu : x.toModel.unpack with
    | infinity s => exact isNaN_infinity_sub hy
    | notANumber =>
      rw [hu] at hx
      cases hx
    | _ =>
      rw [hu] at hfin
      exact absurd rfl hfin

end ScalarRoots.Binary64
