import ScalarRoots.Binary64.Log2
import ScalarRoots.Proofs.Binary64.Whole

/-!
# The binary logarithm

The logarithm is computed in two parts.  Its whole part is the place of the leading bit, and the
bits of its fraction come from squaring again and again.  Truncating the squares makes the
logarithm smaller, by far less than the last bit that is computed, so the bits are right up to
the last one.  They are rounded to a number once, and the last bit is far behind the place where
that happens: numbers other than one are not so close to one that their logarithms would have
too few bits.

## Key results

- `magnitude_of_unpack`: the fields of a number
- `exists_log2Bits`: the bits of the fraction
- `toRat_between` / `isMantissa_mantissa`: the whole part, and where the bits start from
- `log2Fixed_bounds` / `log2Fixed_of_powerOfTwo`: the logarithm before it is rounded
- `isClosest_ofInt`: integers turn into the closest number
- `IsLog2`: a logarithm that is exact for powers of two, and off by less than the distance of
  numbers for others
- `isLog2_log2`: the logarithm is of that kind
-/

namespace ScalarRoots.Binary64

/-! ## Bits -/

/-- A number from one on that is truncated by `h` has a logarithm that is smaller by `2 h` at
    most. -/
theorem logb_le_add {a b h : ℝ} (ha : 1 ≤ a) (hb : 0 < b) (hh : 0 ≤ h) (hab : b ≤ a + h) :
    Real.logb 2 b ≤ Real.logb 2 a + 2 * h := by
  have hlog2 : 1 / 2 < Real.log 2 := by
    have := Real.log_two_gt_d9
    linarith
  have hscale : b ≤ a * (1 + h) := by nlinarith
  -- `log (1 + h) ≤ h`, and the natural logarithm of two is more than a half
  have hfactor : Real.logb 2 (1 + h) ≤ 2 * h := by
    have hlog := Real.log_le_sub_one_of_pos (by linarith : 0 < 1 + h)
    rw [Real.logb, div_le_iff₀ (by linarith)]
    nlinarith
  calc Real.logb 2 b ≤ Real.logb 2 (a * (1 + h)) := Real.logb_le_logb_of_le one_lt_two hb hscale
    _ = Real.logb 2 a + Real.logb 2 (1 + h) := Real.logb_mul (by linarith) (by linarith)
    _ ≤ Real.logb 2 a + 2 * h := by linarith

/-- The binary logarithm of `mantissa / 2 ^ workingBits`. -/
noncomputable def mantissaLog (mantissa : ℕ) : ℝ := Real.logb 2 (mantissa / 2 ^ workingBits)

/-- The mantissas that stand for numbers from one up to two. -/
def IsMantissa (mantissa : ℕ) : Prop :=
  2 ^ workingBits ≤ mantissa ∧ mantissa < 2 ^ (workingBits + 1)

/-- What truncating squares adds to the error of a bit. -/
noncomputable def squareError : ℝ := 2 / 2 ^ workingBits

/-- The logarithm of a mantissa has no whole part below zero. -/
theorem IsMantissa.log_nonneg {mantissa : ℕ} (h : IsMantissa mantissa) :
    0 ≤ mantissaLog mantissa := by
  have hlow : (2 : ℝ) ^ workingBits ≤ mantissa := by exact_mod_cast h.1
  exact Real.logb_nonneg one_lt_two ((one_le_div (by positivity)).2 hlow)

/-- Nor does it reach one, so it consists of its bits alone. -/
theorem IsMantissa.log_lt_one {mantissa : ℕ} (h : IsMantissa mantissa) :
    mantissaLog mantissa < 1 := by
  have hlow : (2 : ℝ) ^ workingBits ≤ mantissa := by exact_mod_cast h.1
  have hhigh : (mantissa : ℝ) < 2 * 2 ^ workingBits := by
    have := h.2
    rw [pow_succ'] at this
    exact_mod_cast this
  have hpos : (0 : ℝ) < 2 ^ workingBits := by positivity
  rw [mantissaLog, Real.logb_lt_iff_lt_rpow one_lt_two (div_pos (hpos.trans_le hlow) hpos),
    Real.rpow_one, div_lt_iff₀ hpos]
  exact hhigh

/-- Squaring doubles the logarithm, and taking off a leading one subtracts one from it. -/
theorem mantissaLog_square {mantissa next b : ℕ} (h : IsMantissa mantissa)
    (hnext : next = mantissa * mantissa / 2 ^ (workingBits + b)) (hlow : 2 ^ workingBits ≤ next) :
    b + mantissaLog next ≤ 2 * mantissaLog mantissa ∧
      2 * mantissaLog mantissa ≤ b + mantissaLog next + squareError := by
  have hw : (0 : ℝ) < 2 ^ workingBits := by positivity
  have hd : (0 : ℝ) < 2 ^ (workingBits + b) := by positivity
  -- `square` is the exact square, moved back below two
  obtain ⟨square, hsquare⟩ :
      ∃ q : ℝ, q = (mantissa * mantissa : ℕ) / 2 ^ (workingBits + b) / 2 ^ workingBits := ⟨_, rfl⟩
  have hpos : 0 < mantissa := (Nat.two_pow_pos _).trans_le h.1
  -- the logarithm of the exact square
  have hlog : Real.logb 2 square = 2 * mantissaLog mantissa - b := by
    have hsplit : square = (mantissa / 2 ^ workingBits : ℝ) ^ 2 / 2 ^ b := by
      rw [hsquare, pow_add]
      push_cast
      field_simp
    rw [hsplit, Real.logb_div (by positivity) (by positivity), Real.logb_pow, Real.logb_pow,
      Real.logb_self_eq_one one_lt_two, mul_one, mantissaLog, Nat.cast_ofNat]
  -- the square that is kept is truncated, by one unit of the working bits at most
  have hbelow : (next / 2 ^ workingBits : ℝ) ≤ square := by
    rw [hsquare, hnext]
    refine div_le_div_of_nonneg_right ?_ hw.le
    exact_mod_cast Nat.cast_div_le
  have habove : square ≤ next / 2 ^ workingBits + 1 / 2 ^ workingBits := by
    rw [hsquare, ← add_div]
    refine div_le_div_of_nonneg_right ((div_le_iff₀ hd).2 ?_) hw.le
    have hlt := Nat.lt_mul_div_succ (mantissa * mantissa) (Nat.two_pow_pos (workingBits + b))
    rw [← hnext, mul_comm (2 ^ (workingBits + b))] at hlt
    exact_mod_cast hlt.le
  have hone : (1 : ℝ) ≤ next / 2 ^ workingBits := (one_le_div hw).2 (by exact_mod_cast hlow)
  have hlower := Real.logb_le_logb_of_le one_lt_two (by linarith) hbelow
  have hupper := logb_le_add hone (by linarith) (by positivity) habove
  rw [hlog] at hlower hupper
  rw [squareError, ← mul_one_div]
  constructor
  · unfold mantissaLog at *
    linarith
  · unfold mantissaLog at *
    linarith

/-- The next bit is appended, and the mantissa that it leaves is one again. -/
theorem exists_log2Bits_succ {mantissa : ℕ} (h : IsMantissa mantissa) (count bits : ℕ) :
    ∃ b next, log2Bits (count + 1) mantissa bits = log2Bits count next (2 * bits + b) ∧
      IsMantissa next ∧ next = mantissa * mantissa / 2 ^ (workingBits + b) := by
  obtain ⟨hlow, hhigh⟩ := h
  have hsquare : 2 ^ workingBits ≤ mantissa * mantissa / 2 ^ workingBits :=
    (Nat.le_div_iff_mul_le (Nat.two_pow_pos _)).2 (Nat.mul_le_mul hlow hlow)
  have hbound : mantissa * mantissa / 2 ^ workingBits < 2 ^ (workingBits + 1 + 1) := by
    rw [Nat.div_lt_iff_lt_mul (Nat.two_pow_pos _)]
    have hpow (w : ℕ) : 2 ^ (w + 1) * 2 ^ (w + 1) = 2 ^ (w + 1 + 1) * 2 ^ w := by ring
    rw [← hpow]
    exact Nat.mul_lt_mul'' hhigh hhigh
  simp only [log2Bits, Nat.shiftRight_eq_div_pow]
  -- the square stays below two, or is halved and leaves a bit
  split_ifs with hbit
  · refine ⟨0, _, rfl, ⟨hsquare, ?_⟩, rfl⟩
    exact (Nat.div_eq_zero_iff_lt (Nat.two_pow_pos _)).1 hbit
  · refine ⟨1, _, rfl, ⟨?_, ?_⟩, by rw [Nat.div_div_eq_div_mul, pow_add]⟩
    · have hge := not_lt.1 fun hlt => hbit (Nat.div_eq_of_lt hlt)
      rw [pow_one, Nat.le_div_iff_mul_le two_pos, ← pow_succ]
      exact hge
    · rw [pow_one, Nat.div_lt_iff_lt_mul two_pos, ← pow_succ]
      exact hbound

/-- The bits of the logarithm are those of the true one, up to the last of them. -/
theorem exists_log2Bits {mantissa : ℕ} (h : IsMantissa mantissa) (count bits : ℕ) :
    ∃ r : ℕ, log2Bits count mantissa bits = bits * 2 ^ count + r ∧
      r ≤ 2 ^ count * mantissaLog mantissa ∧
      2 ^ count * mantissaLog mantissa < r + 1 + (2 ^ count - 1) * squareError := by
  -- Induction on the number of bits that are left, each taken off the doubled logarithm.
  induction count generalizing mantissa bits with
  | zero =>
    refine ⟨0, by simp [log2Bits], ?_, ?_⟩
    · simpa using h.log_nonneg
    · simpa using h.log_lt_one
  | succ count ih =>
    obtain ⟨b, next, hbits, hnext, hdef⟩ := exists_log2Bits_succ h count bits
    obtain ⟨r, hr, hlow, hhigh⟩ := ih hnext (2 * bits + b)
    obtain ⟨hle, hge⟩ := mantissaLog_square h hdef hnext.1
    have hpos : (0 : ℝ) < 2 ^ count := by positivity
    refine ⟨b * 2 ^ count + r, ?_, ?_, ?_⟩
    · rw [hbits, hr]
      ring
    · have := mul_le_mul_of_nonneg_left hle hpos.le
      push_cast
      rw [pow_succ]
      linarith
    · have := mul_le_mul_of_nonneg_left hge hpos.le
      push_cast
      rw [pow_succ]
      linarith

/-- One has no bits. -/
theorem log2Bits_two_pow (count bits : ℕ) :
    log2Bits count (2 ^ workingBits) bits = bits * 2 ^ count := by
  have hsquare : (2 ^ workingBits * 2 ^ workingBits) >>> workingBits = 2 ^ workingBits := by
    rw [Nat.shiftRight_eq_div_pow, Nat.mul_div_cancel _ (Nat.two_pow_pos _)]
  have hbit : 2 ^ workingBits >>> (workingBits + 1) = 0 := by
    rw [Nat.shiftRight_eq_div_pow]
    exact Nat.div_eq_of_lt (Nat.pow_lt_pow_right (by decide) (Nat.lt_succ_self _))
  induction count generalizing bits with
  | zero => simp [log2Bits]
  | succ count ih =>
    simp only [log2Bits, hsquare, hbit, if_true]
    rw [ih]
    ring

/-! ## Magnitudes -/

section Magnitudes

open Float.Model Float.Model.UnpackedFloat

/-- The fraction of a word is its lowest fifty-two bits. -/
theorem toNat_unpackMantissa (x : Float) :
    (@unpackMantissa Format.binary64 x.toModel.toBits.toBitVec).toNat = fractionBits x := by
  simp [unpackMantissa, fractionBits, Float.toBits]

/-- The exponent of a word is the eleven bits above. -/
theorem toNat_unpackExponent (x : Float) :
    (@unpackExponent Format.binary64 x.toModel.toBits.toBitVec).toNat = exponentBits x := by
  simp [unpackExponent, exponentBits, Float.toBits, Nat.shiftRight_eq_div_pow]

/-- The fields of a word are what it unpacks to. -/
theorem magnitude_of_unpack {x : Float} {s : Sign} {m : ℕ} {e : ℤ} {hm : 0 < m}
    (hu : x.toModel.unpack = .finite s m e hm) : magnitude x = ⟨m, e⟩ := by
  unfold Float.Model.unpack UnpackedFloat.unpack at hu
  simp only at hu
  have hexp := toNat_unpackExponent x
  have hfrac := toNat_unpackMantissa x
  -- an exponent of ones belongs to no finite number
  split at hu
  · split at hu <;> cases hu
  · split at hu
    · next hzero =>
      rw [hzero, BitVec.toNat_zero] at hexp
      split at hu
      · cases hu
      · -- subnormal: the exponent is the least one
        cases hu
        rw [magnitude, if_pos hexp.symm, hfrac]
        simp only [leastExponent, hzero, BitVec.toNat_zero, Format.exponentBias]
        rfl
    · -- normal: a leading one is put in front of the fraction
      next hzero =>
      have hpos : exponentBits x ≠ 0 := by
        rw [← hexp]
        exact fun h => hzero (BitVec.eq_of_toNat_eq h)
      cases hu
      rw [magnitude, if_neg hpos]
      simp only [leastExponent, Format.exponentBias, toNat_leading_one, hfrac, hexp,
        Magnitude.mk.injEq, Nat.pow_eq]
      omega

end Magnitudes

/-! ## The logarithm before it is rounded -/

/-- What a magnitude stands for. -/
def Magnitude.toRat (m : Magnitude) : ℚ := m.significand * 2 ^ m.exponent

/-- The magnitude of a positive number stands for the number. -/
theorem toRat_magnitude {x : Float} (hx : x.isFinite = true) (hpos : 0 < toRat x) :
    (magnitude x).toRat = toRat x ∧ 0 < (magnitude x).significand := by
  rcases unpack_of_isFinite hx with ⟨s, hu⟩ | ⟨s, m, e, hm, hu⟩
  · rw [toRat_of_unpack_zero hu] at hpos
    exact absurd hpos (lt_irrefl 0)
  · rw [toRat_of_unpack_finite hu] at hpos ⊢
    have hvalue : (0 : ℚ) < m * 2 ^ e := mul_pos (by exact_mod_cast hm) (zpow_pos two_pos e)
    cases s with
    | negative => exact absurd hpos (not_lt.2 (neg_nonpos.2 hvalue.le))
    | positive =>
      rw [magnitude_of_unpack hu]
      exact ⟨rfl, hm⟩

/-- The logarithm of a power of two is its exponent. -/
theorem logb_two_zpow (k : ℤ) : Real.logb 2 (2 ^ k) = k := by
  rw [← Real.rpow_intCast, Real.logb_rpow two_pos (by norm_num)]

/-- The whole part of the logarithm. -/
def Magnitude.lead (m : Magnitude) : ℤ := m.exponent + m.significand.log2

/-- The significand, moved to the front of the working bits. -/
def Magnitude.mantissa (m : Magnitude) : ℕ :=
  m.significand <<< (workingBits - m.significand.log2)

/-- The whole part stands in front of the bits of the fraction. -/
theorem log2Fixed_eq (m : Magnitude) :
    log2Fixed m = m.lead * 2 ^ fractionLength + log2Bits fractionLength m.mantissa 0 := rfl

section Fixed

variable {m : Magnitude} (hpos : 0 < m.significand) (hlt : m.significand < 2 ^ 53)

include hpos hlt

/-- A significand fits into the working bits. -/
theorem log2_significand_le : m.significand.log2 ≤ workingBits := by
  have := (Nat.log2_lt hpos.ne').2 hlt
  unfold workingBits
  omega

/-- Moved to the front, it stands for a number from one up to two. -/
theorem isMantissa_mantissa : IsMantissa m.mantissa := by
  have hle := log2_significand_le hpos hlt
  have hlow := Nat.log2_self_le hpos.ne'
  have hhigh := Nat.lt_log2_self (n := m.significand)
  rw [IsMantissa, Magnitude.mantissa, Nat.shiftLeft_eq]
  constructor
  · calc 2 ^ workingBits = 2 ^ m.significand.log2 * 2 ^ (workingBits - m.significand.log2) := by
          rw [← pow_add, Nat.add_sub_cancel' hle]
      _ ≤ _ := Nat.mul_le_mul_right _ hlow
  · calc _ < 2 ^ (m.significand.log2 + 1) * 2 ^ (workingBits - m.significand.log2) :=
          Nat.mul_lt_mul_of_pos_right hhigh (Nat.two_pow_pos _)
      _ = 2 ^ (workingBits + 1) := by
          rw [← pow_add, Nat.add_right_comm, Nat.add_sub_cancel' hle]

/-- The two together are the magnitude. -/
theorem toRat_eq_mantissa_mul : m.toRat = m.mantissa / 2 ^ workingBits * 2 ^ m.lead := by
  have hle := log2_significand_le hpos hlt
  have hmantissa : (m.mantissa : ℚ) / 2 ^ workingBits = m.significand / 2 ^ m.significand.log2 := by
    rw [Magnitude.mantissa, Nat.shiftLeft_eq]
    push_cast
    rw [div_eq_div_iff (by positivity) (by positivity), mul_assoc, ← pow_add,
      Nat.sub_add_cancel hle]
  rw [hmantissa, Magnitude.toRat, Magnitude.lead, zpow_add₀ two_ne_zero, zpow_natCast]
  field_simp

/-- So the whole part of the logarithm is that of the true one. -/
theorem toRat_between : 2 ^ m.lead ≤ m.toRat ∧ m.toRat < 2 ^ (m.lead + 1) := by
  obtain ⟨hlow, hhigh⟩ := isMantissa_mantissa hpos hlt
  have hone : (1 : ℚ) ≤ m.mantissa / 2 ^ workingBits :=
    (one_le_div (by positivity)).2 (by exact_mod_cast hlow)
  have htwo : (m.mantissa : ℚ) / 2 ^ workingBits < 2 := by
    rw [div_lt_iff₀ (by positivity), ← pow_succ']
    exact_mod_cast hhigh
  have hlead : (0 : ℚ) < 2 ^ m.lead := by positivity
  rw [toRat_eq_mantissa_mul hpos hlt, zpow_add_one₀ two_ne_zero, mul_comm _ (2 : ℚ)]
  exact ⟨le_mul_of_one_le_left hlead.le hone, mul_lt_mul_of_pos_right htwo hlead⟩

/-- The true logarithm is the whole part and that of the mantissa. -/
theorem log_toRat : Real.logb 2 (m.toRat : ℝ) = m.lead + mantissaLog m.mantissa := by
  have hmantissa : (0 : ℝ) < m.mantissa := by
    exact_mod_cast (Nat.two_pow_pos _).trans_le (isMantissa_mantissa hpos hlt).1
  rw [toRat_eq_mantissa_mul hpos hlt]
  push_cast
  rw [Real.logb_mul (by positivity) (by positivity), logb_two_zpow, add_comm]
  rfl

/-- The bits are truncated, and truncating the squares makes up for less than another bit. -/
theorem log2Fixed_bounds :
    (log2Fixed m : ℝ) ≤ 2 ^ fractionLength * Real.logb 2 (m.toRat : ℝ) ∧
      2 ^ fractionLength * Real.logb 2 (m.toRat : ℝ) < log2Fixed m + 2 := by
  obtain ⟨r, hr, hlow, hhigh⟩ := exists_log2Bits (isMantissa_mantissa hpos hlt) fractionLength 0
  have hfixed : (log2Fixed m : ℝ) = m.lead * 2 ^ fractionLength + r := by
    rw [log2Fixed_eq, hr, zero_mul, zero_add]
    push_cast
    rfl
  -- all truncations together weigh less than one of the last bits
  have hsmall : ((2 : ℝ) ^ fractionLength - 1) * squareError < 1 := by
    unfold squareError fractionLength workingBits
    norm_num
  rw [hfixed, log_toRat hpos hlt]
  constructor <;> linarith

/-- A power of two has a whole logarithm. -/
theorem log2Fixed_of_powerOfTwo {k : ℤ} (hk : m.toRat = 2 ^ k) :
    log2Fixed m = k * 2 ^ fractionLength := by
  obtain ⟨hlow, hhigh⟩ := toRat_between hpos hlt
  rw [hk] at hlow hhigh
  -- a power of two lies between consecutive powers only if it is the lower one
  have hlead : m.lead = k := by
    have := (zpow_le_zpow_iff_right₀ one_lt_two).1 hlow
    have := (zpow_lt_zpow_iff_right₀ one_lt_two).1 hhigh
    omega
  have hmantissa : m.mantissa = 2 ^ workingBits := by
    have hvalue := toRat_eq_mantissa_mul hpos hlt
    rw [hk, hlead] at hvalue
    have hone := (mul_eq_right₀ (by positivity)).1 hvalue.symm
    rw [div_eq_one_iff_eq (by positivity)] at hone
    exact_mod_cast hone
  rw [log2Fixed_eq, hlead, hmantissa, log2Bits_two_pow, zero_mul, Nat.cast_zero, add_zero]

end Fixed

/-! ## Turning integers into numbers -/

section Integers

open Float.Model Float.Model.UnpackedFloat

/-- A natural number that is too long to be read as a word is rounded as a whole. -/
theorem roundsTo_ofScientific {n : ℕ} (h : 2 ^ 53 ≤ n) :
    RoundsTo (UnpackedFloat.ofScientific Format.binary64 n 0) (n * unitsPerOne) := by
  have hpos : 0 < n := (Nat.two_pow_pos 53).trans_le h
  -- read as a decimal without places, the number is shifted and rounded once
  have hscientific : UnpackedFloat.ofScientific Format.binary64 n 0 =
      roundWithAccuracy Format.binary64 .positive (n <<< 53 * 1) (-53 + 0) .exact := by
    have hrange : (0 : ℤ) < 2 ^ Format.binary64.exponentBits := by positivity
    rw [UnpackedFloat.ofScientific, dif_neg hpos.ne', if_neg (by omega), if_neg (by omega),
      if_pos le_rfl]
    rfl
  have hlarge : 2 ^ 53 ≤ n <<< 53 * 1 := by
    rw [mul_one, Nat.shiftLeft_eq]
    exact Nat.le_mul_of_pos_left _ hpos
  have hshift : 0 < n <<< 53 * 1 := hlarge.trans_lt' (by decide)
  have hlog : 53 ≤ (n <<< 53 * 1).log2 := (Nat.le_log2 hshift.ne').2 hlarge
  have hvalue : signed .positive (((n <<< 53 * 1 : ℕ) : ℚ) * 2 ^ (-53 + 0 - leastExponent)) =
      n * unitsPerOne := by
    rw [signed, mul_one, Nat.shiftLeft_eq, unitsPerOne, add_zero, sub_eq_add_neg,
      zpow_add₀ two_ne_zero, Nat.cast_mul, Nat.cast_pow, Nat.cast_ofNat]
    field_simp
  rw [hscientific, ← hvalue]
  exact roundsTo_roundWithAccuracy (e := -53 + 0) .positive (represents_exact (n <<< 53 * 1))
    (by exact_mod_cast hshift) (.inl hshift) (by rw [ulpOf_eq]; omega)

/-- A natural number that is not too large turns into the closest number. -/
theorem isClosest_ofNat {n : ℕ} (h : (n : ℚ) ≤ safeBound) :
    (Float.ofNat n).isFinite = true ∧ IsClosest (Binary64.toRat (Float.ofNat n)) n := by
  -- short numbers are read as words and are exact
  by_cases hshort : n < 2 ^ 53
  · obtain ⟨hfin, hvalue⟩ := toRat_ofNat hshort
    rw [hvalue]
    exact ⟨hfin, .refl n⟩
  · obtain ⟨hnan, hunits⟩ := roundsTo_ofScientific (not_lt.1 hshort)
    have hread : Float.ofNat n =
        Float.ofModel (Float.Model.pack (UnpackedFloat.ofScientific Format.binary64 n 0)) :=
      dif_neg fun h => hshort h.1
    have hfin : (Float.ofNat n).isFinite = true := by
      rw [hread]
      refine isFinite_iff.2 ⟨hnan, ?_⟩
      show |unitsOf (Float.Model.pack _).unpack| < _
      rw [hunits]
      exact abs_roundUnits_lt_infinity ((Nat.abs_cast n).trans_le h)
    refine ⟨hfin, isClosest_of_units hfin ?_⟩
    rw [hread]
    exact hunits

end Integers

/-- So does an integer of either sign. -/
theorem isClosest_ofInt {n : ℤ} (h : |(n : ℚ)| ≤ safeBound) :
    (Float.ofInt n).isFinite = true ∧ IsClosest (toRat (Float.ofInt n)) n := by
  cases n with
  | ofNat n => exact isClosest_ofNat ((le_abs_self _).trans h)
  | negSucc n =>
    -- a negative integer is the negation of a natural number
    have hcast : ((Int.negSucc n : ℤ) : ℚ) = -(n + 1 : ℕ) := by
      rw [Int.negSucc_eq]
      push_cast
      ring
    rw [hcast, abs_neg, Nat.abs_cast] at h
    obtain ⟨hfin, hclose⟩ := isClosest_ofNat h
    show (-Float.ofNat (n + 1)).isFinite = true ∧ IsClosest (toRat (-Float.ofNat (n + 1))) _
    rw [isFinite_neg_self, toRat_neg, hcast]
    exact ⟨hfin, hclose.neg⟩

/-! ## Range -/

/-- A fraction with fifty-three binary places is as far from one as its last place says. -/
private theorem far_from_one_of_ne {m k : ℕ} (hm : m < 2 ^ 53) (hne : (m : ℚ) / 2 ^ k ≠ 1) :
    (m : ℚ) / 2 ^ k ≤ 1 - 1 / 2 ^ 53 ∨ 1 + 1 / 2 ^ 52 ≤ (m : ℚ) / 2 ^ k := by
  have hk : (0 : ℚ) < 2 ^ k := by positivity
  rcases lt_or_gt_of_ne hne with hlt | hgt
  · left
    rcases le_or_gt k 53 with hle | hlong
    · -- below one by a unit of the last place at least
      have hm1 : m + 1 ≤ 2 ^ k := by
        rw [div_lt_one hk] at hlt
        exact_mod_cast hlt
      have hlast : (1 : ℚ) / 2 ^ 53 ≤ 1 / 2 ^ k :=
        one_div_le_one_div_of_le hk (pow_le_pow_right₀ one_le_two hle)
      have hsum : (m : ℚ) / 2 ^ k + 1 / 2 ^ k ≤ 1 := by
        rw [← add_div, div_le_one hk]
        exact_mod_cast hm1
      linarith
    · -- with more places than there are digits it is less than a half
      have hlarge : (2 : ℚ) ^ 54 ≤ 2 ^ k := pow_le_pow_right₀ one_le_two hlong
      have hhalf : (m : ℚ) / 2 ^ k ≤ 1 / 2 := by
        have : (m : ℚ) < 2 ^ 53 := by exact_mod_cast hm
        rw [div_le_iff₀ hk]
        linarith
      linarith
  · -- above one there are at most fifty-two places behind the point
    right
    have hm1 : 2 ^ k + 1 ≤ m := by
      rw [one_lt_div hk] at hgt
      exact_mod_cast hgt
    have hle : k ≤ 52 := by
      have := (Nat.pow_lt_pow_iff_right (by decide : 1 < 2)).1 (show 2 ^ k < 2 ^ 53 by omega)
      omega
    have hlast : (1 : ℚ) / 2 ^ 52 ≤ 1 / 2 ^ k :=
      one_div_le_one_div_of_le hk (pow_le_pow_right₀ one_le_two hle)
    have hsum : 1 + (1 : ℚ) / 2 ^ k ≤ m / 2 ^ k := by
      rw [one_add_div hk.ne', div_le_div_iff_of_pos_right hk]
      exact_mod_cast hm1
    linarith

section Range

variable {x : Float} (hx : x.isFinite = true)

include hx

/-- Finite numbers end at twice the bound for large ones. -/
theorem abs_toRat_lt : |toRat x| < 2 * largeBound := by
  have hsafe := safeBound_mul_unitsPerOne
  have hinfinity : (infinityUnits : ℚ) = 4 * 2 ^ 2096 := by
    rw [infinityUnits_eq, Nat.cast_mul, Nat.cast_pow, Nat.cast_ofNat, Nat.cast_ofNat]
  have hunits : |(units x : ℚ)| < infinityUnits := by exact_mod_cast (isFinite_iff.1 hx).2
  rw [units_eq_toRat_mul, abs_mul, abs_of_pos unitsPerOne_pos, hinfinity] at hunits
  refine lt_of_mul_lt_mul_right ?_ unitsPerOne_pos.le
  rw [safeBound, mul_assoc] at hsafe
  rw [mul_assoc]
  -- the power is too large to be computed
  generalize (2 : ℚ) ^ 2096 = y at *
  linarith

/-- So their logarithms are no larger than the exponents go. -/
theorem abs_log_le (hpos : 0 < toRat x) : |Real.logb 2 (toRat x : ℝ)| ≤ 1074 := by
  have hlow : (2 : ℝ) ^ leastExponent ≤ toRat x := by
    have h := leastPositive_le_abs hpos.ne'
    rw [abs_of_pos hpos, leastPositive] at h
    have hcast := (Rat.cast_le (K := ℝ)).2 h
    push_cast at hcast
    exact hcast
  have hhigh : (toRat x : ℝ) ≤ 2 ^ (1 + 1023 : ℤ) := by
    have h := (abs_toRat_lt hx).le
    rw [abs_of_pos hpos, largeBound] at h
    have hcast := (Rat.cast_le (K := ℝ)).2 h
    push_cast at hcast
    rw [zpow_add₀ two_ne_zero, zpow_one]
    exact hcast
  have hlog := Real.logb_le_logb_of_le one_lt_two (by positivity) hlow
  have hlog' := Real.logb_le_logb_of_le one_lt_two (by exact_mod_cast hpos) hhigh
  rw [logb_two_zpow, leastExponent] at hlog
  rw [logb_two_zpow] at hlog'
  push_cast at hlog hlog'
  rw [abs_le]
  constructor <;> linarith

/-- Next to one there is a gap on both sides. -/
theorem le_or_le_of_ne_one (hpos : 0 < toRat x) (hne : toRat x ≠ 1) :
    toRat x ≤ 1 - 1 / 2 ^ 53 ∨ 1 + 1 / 2 ^ 52 ≤ toRat x := by
  obtain ⟨m, e, hm, -, -, hmx⟩ := exists_significand hx
  rw [hmx] at hpos hne ⊢
  have hm0 : 0 < m := by exact_mod_cast pos_of_mul_pos_left hpos (by positivity)
  lift m to ℕ using hm0.le
  rw [Nat.abs_cast] at hm
  have hm53 : m < 2 ^ 53 := by exact_mod_cast hm
  rcases lt_or_ge e 0 with hneg | hwhole
  · -- a fraction
    obtain ⟨k, rfl⟩ : ∃ k : ℕ, e = -k := ⟨(-e).toNat, by omega⟩
    have hdiv : ((m : ℤ) : ℚ) * 2 ^ (-k : ℤ) = m / 2 ^ k := by
      rw [zpow_neg, zpow_natCast, div_eq_mul_inv, Int.cast_natCast]
    rw [hdiv] at hne ⊢
    exact far_from_one_of_ne hm53 hne
  · -- a whole number is at least two
    obtain ⟨k, rfl⟩ := Int.eq_ofNat_of_zero_le hwhole
    right
    have hnat : ((m : ℤ) : ℚ) * 2 ^ (k : ℤ) = (m * 2 ^ k : ℕ) := by
      push_cast
      rw [zpow_natCast]
    rw [hnat] at hpos hne ⊢
    have htwo : 2 ≤ m * 2 ^ k := by
      have h0 : 0 < m * 2 ^ k := by exact_mod_cast hpos
      have h1 : m * 2 ^ k ≠ 1 := by exact_mod_cast hne
      omega
    have : (2 : ℚ) ≤ (m * 2 ^ k : ℕ) := by exact_mod_cast htwo
    linarith

/-- So the logarithm of another number than one is not too small. -/
theorem le_abs_log (hpos : 0 < toRat x) (hne : toRat x ≠ 1) :
    1 / 2 ^ 53 ≤ |Real.logb 2 (toRat x : ℝ)| := by
  have hlog2 : 0 < Real.log 2 := Real.log_pos one_lt_two
  have hlog2' : Real.log 2 < 1 := by
    have := Real.log_two_lt_d9
    linarith
  have hpos' : (0 : ℝ) < toRat x := by exact_mod_cast hpos
  have hlog : 1 / 2 ^ 53 ≤ |Real.log (toRat x)| := by
    -- below one, `log x ≤ x - 1`; above one, `1 - 1 / x ≤ log x`
    rcases le_or_le_of_ne_one hx hpos hne with hbelow | habove
    · have hle := Real.log_le_sub_one_of_pos hpos'
      have hbelow := (Rat.cast_le (K := ℝ)).2 hbelow
      push_cast at hbelow
      exact le_abs.2 (.inr (by linarith))
    · have hge := Real.one_sub_inv_le_log_of_pos hpos'
      have habove := (Rat.cast_le (K := ℝ)).2 habove
      push_cast at habove
      have hinv : (toRat x : ℝ)⁻¹ ≤ (1 + 1 / 2 ^ 52)⁻¹ :=
        inv_anti₀ (by positivity) habove
      have hnum : ((1 : ℝ) + 1 / 2 ^ 52)⁻¹ ≤ 1 - 1 / 2 ^ 53 := by norm_num
      exact le_abs.2 (.inl (by linarith))
  -- to base two, the logarithm is larger still
  rw [Real.logb, abs_div, abs_of_pos hlog2, le_div_iff₀ hlog2]
  nlinarith

end Range

/-! ## The logarithm -/

/-- The distance of the numbers around `y`. -/
noncomputable def spacing (y : ℝ) : ℝ := 2 ^ max (Int.log 2 |y| - 52) leastExponent

/-- A binary logarithm of finite positive numbers: exact for powers of two, and off by no more
    than the distance of the numbers around it for all others. -/
structure IsLog2 (log : Float → Float) : Prop where
  finite : ∀ x, x.isFinite = true → 0 < toRat x → (log x).isFinite = true
  exact : ∀ x (k : ℤ), x.isFinite = true → toRat x = 2 ^ k → toRat (log x) = k
  close : ∀ x, x.isFinite = true → 0 < toRat x →
    |(toRat (log x) : ℝ) - Real.logb 2 (toRat x : ℝ)| ≤ spacing (Real.logb 2 (toRat x : ℝ))

/-- The closest number to an integer is an integer, with a last place that is not behind the
    point. -/
theorem IsClosest.exists_significand {y : Float} {n : ℤ} (h : IsClosest (toRat y) n)
    (hy : y.isFinite = true) : ∃ m e : ℤ, |m| ≤ 2 ^ 53 ∧ 0 ≤ e ∧ toRat y = m * 2 ^ e := by
  by_cases hshort : |n| ≤ 2 ^ 53
  · -- it is the integer itself
    have hone : (n : ℚ) = n * 2 ^ (0 : ℤ) := by rw [zpow_zero, mul_one]
    rw [hone] at h
    exact ⟨n, 0, hshort, le_rfl, h.eq hshort (by decide)⟩
  · obtain ⟨m, e, hm, -, -, hmy⟩ := Binary64.exists_significand hy
    refine ⟨m, e, hm.le, ?_, hmy⟩
    -- it is not shorter than the integer, so its fifty-three places are all in front of the point
    have hlong : (2 : ℚ) ^ 53 ≤ |toRat y| := by
      have hn : (2 : ℚ) ^ 53 < |(n : ℚ)| := by exact_mod_cast not_le.1 hshort
      have hup := h (2 ^ 53) 0 (by decide) (by decide)
      have hdown := h (-2 ^ 53) 0 (by decide) (by decide)
      rw [zpow_zero, mul_one, Int.cast_pow, Int.cast_ofNat] at hup
      rw [zpow_zero, mul_one, Int.cast_neg, Int.cast_pow, Int.cast_ofNat] at hdown
      rcases abs_cases (n : ℚ) with ⟨habs, -⟩ | ⟨habs, -⟩
      · rw [abs_of_nonpos (by linarith : (2 : ℚ) ^ 53 - n ≤ 0)] at hup
        exact le_abs.2 (.inl (by linarith [neg_abs_le (toRat y - n)]))
      · rw [abs_of_nonneg (by linarith : (0 : ℚ) ≤ -2 ^ 53 - n)] at hdown
        exact le_abs.2 (.inr (by linarith [le_abs_self (toRat y - n)]))
    by_contra hneg
    have hbits : |(m : ℚ)| < 2 ^ 53 := by exact_mod_cast hm
    have hle : (2 : ℚ) ^ e ≤ 2 ^ (0 : ℤ) := zpow_le_zpow_right₀ one_le_two (by omega)
    rw [hmy, abs_mul, abs_of_pos (by positivity : (0 : ℚ) < 2 ^ e)] at hlong
    have := mul_le_mul_of_nonneg_left hle (abs_nonneg (m : ℚ))
    rw [zpow_zero, mul_one] at this
    linarith

section Logarithm

variable {x : Float} (hx : x.isFinite = true) (hpos : 0 < toRat x)

include hx hpos

/-- Positive numbers take none of the special cases. -/
theorem log2_of_pos : log2 x =
    Float.ofInt (log2Fixed (magnitude x)) / Float.ofNat (Nat.pow 2 fractionLength) := by
  have hbeq : (x == 0) = false := Bool.eq_false_iff.2 fun h =>
    hpos.ne' ((toRat_of_beq h).trans toRat_zero)
  have hsign : signBit x = false := Bool.eq_false_iff.2 fun h =>
    absurd (toRat_neg_of_signBit hx hpos.ne' h) hpos.not_gt
  have hinf : x.isInf = false := by
    show x.toModel.unpack.isInf = false
    rcases unpack_of_isFinite hx with ⟨s, hu⟩ | ⟨s, m, e, hm, hu⟩ <;> rw [hu] <;> rfl
  simp only [log2, isNaN_of_isFinite hx, hbeq, hsign, hinf, Bool.false_eq_true, if_false]

/-- The bits of a positive number are those of its logarithm, up to the last one. -/
theorem log2Fixed_magnitude_bounds :
    (log2Fixed (magnitude x) : ℝ) ≤ 2 ^ fractionLength * Real.logb 2 (toRat x : ℝ) ∧
      2 ^ fractionLength * Real.logb 2 (toRat x : ℝ) < log2Fixed (magnitude x) + 2 := by
  obtain ⟨hvalue, hsig⟩ := toRat_magnitude hx hpos
  exact hvalue ▸ log2Fixed_bounds hsig (significand_lt x)

/-- They make an integer that is far from the end of the numbers. -/
theorem abs_log2Fixed_le : |(log2Fixed (magnitude x) : ℚ)| ≤ 2 ^ 131 := by
  have hrange := abs_le.1 (abs_log_le hx hpos)
  obtain ⟨hlow, hhigh⟩ := log2Fixed_magnitude_bounds hx hpos
  have hreal : |(log2Fixed (magnitude x) : ℝ)| ≤ 2 ^ 131 := by
    unfold fractionLength at hlow hhigh
    rw [abs_le]
    constructor <;> linarith
  exact_mod_cast hreal

end Logarithm

/-- The unit of the last bit is a power of two. -/
theorem toRat_fractionScale :
    (Float.ofNat (Nat.pow 2 fractionLength)).isFinite = true ∧
      toRat (Float.ofNat (Nat.pow 2 fractionLength)) = 2 ^ fractionLength := by
  have hsafe : ((Nat.pow 2 fractionLength : ℕ) : ℚ) ≤ safeBound := by
    have hlarge : (2 : ℚ) ^ fractionLength ≤ largeBound :=
      pow_le_pow_right₀ one_le_two (by decide)
    rw [Nat.pow_eq, Nat.cast_pow, Nat.cast_ofNat]
    exact hlarge.trans largeBound_le_safeBound
  obtain ⟨hfin, hclose⟩ := isClosest_ofNat hsafe
  -- it has a single binary place, so it is not rounded
  have hcast : ((Nat.pow 2 fractionLength : ℕ) : ℚ) = (1 : ℤ) * 2 ^ (fractionLength : ℤ) := by
    rw [Nat.pow_eq, Nat.cast_pow, Nat.cast_ofNat, Int.cast_one, one_mul, zpow_natCast]
  rw [hcast] at hclose
  refine ⟨hfin, (hclose.eq (by decide) (by decide)).trans ?_⟩
  rw [Int.cast_one, one_mul, zpow_natCast]

/-- The logarithm in units of the last bit is rounded to the closest number. -/
theorem isClosest_log2Fixed {x : Float} (hx : x.isFinite = true) (hpos : 0 < toRat x) :
    (Float.ofInt (log2Fixed (magnitude x))).isFinite = true ∧
      IsClosest (toRat (Float.ofInt (log2Fixed (magnitude x)))) (log2Fixed (magnitude x)) := by
  have hlarge : (2 : ℚ) ^ 131 ≤ largeBound := pow_le_pow_right₀ one_le_two (by decide)
  exact isClosest_ofInt (((abs_log2Fixed_le hx hpos).trans hlarge).trans
    largeBound_le_safeBound)

/-- Moving the point back does not round the logarithm again. -/
theorem toRat_log2 {x : Float} (hx : x.isFinite = true) (hpos : 0 < toRat x) :
    (log2 x).isFinite = true ∧
      toRat (log2 x) = toRat (Float.ofInt (log2Fixed (magnitude x))) / 2 ^ fractionLength := by
  obtain ⟨hscale, hunit⟩ := toRat_fractionScale
  obtain ⟨hfin, hclose⟩ := isClosest_log2Fixed hx hpos
  obtain ⟨m, e, hm, he, hme⟩ := hclose.exists_significand hfin
  have hunit0 : toRat (Float.ofNat (Nat.pow 2 fractionLength)) ≠ 0 := by
    rw [hunit]
    positivity
  -- the closest number, moved by as many places as there are bits
  have hquotient : toRat (Float.ofInt (log2Fixed (magnitude x))) / 2 ^ fractionLength =
      m * 2 ^ (e - fractionLength) := by
    rw [hme, zpow_sub₀ two_ne_zero, zpow_natCast, mul_div_assoc]
  have hsafe : |toRat (Float.ofInt (log2Fixed (magnitude x))) / 2 ^ fractionLength| ≤
      safeBound := by
    have habs := abs_toRat_lt hfin
    have hfactor : (2 : ℚ) ≤ 2 ^ fractionLength := by
      simpa using pow_le_pow_right₀ (one_le_two (α := ℚ)) (by decide : 1 ≤ fractionLength)
    rw [abs_div, abs_of_pos (by positivity : (0 : ℚ) < 2 ^ fractionLength),
      div_le_iff₀ (by positivity)]
    have hnonneg := ((by norm_num : (0 : ℚ) ≤ 1024).trans le_largeBound).trans
      largeBound_le_safeBound
    calc |toRat (Float.ofInt (log2Fixed (magnitude x)))| ≤ largeBound * 2 := by linarith
      _ ≤ safeBound * 2 ^ fractionLength :=
        mul_le_mul largeBound_le_safeBound hfactor zero_le_two hnonneg
  -- it has no more places than before, so the division is exact
  obtain ⟨hlog, -⟩ := toRat_div hfin hscale hunit0 (by rwa [hunit])
  have hexact := isClosest_div hfin hscale hunit0 hlog
  rw [hunit, hquotient] at hexact
  rw [log2_of_pos hx hpos]
  refine ⟨hlog, (hexact.eq hm ?_).trans hquotient.symm⟩
  unfold fractionLength leastExponent
  omega

/-- A number that is a power of two has an exponent within the range of numbers. -/
theorem abs_exponent_le {x : Float} (hx : x.isFinite = true) {k : ℤ} (hk : toRat x = 2 ^ k) :
    |k| ≤ 1074 := by
  have hpos : 0 < toRat x := by
    rw [hk]
    positivity
  have h := abs_log_le hx hpos
  rw [hk] at h
  push_cast at h
  rw [logb_two_zpow, ← Int.cast_abs] at h
  exact_mod_cast h

/-- For a power of two the bits are zero, and the whole part is not rounded. -/
theorem toRat_log2_of_powerOfTwo {x : Float} (hx : x.isFinite = true) {k : ℤ}
    (hk : toRat x = 2 ^ k) : toRat (log2 x) = k := by
  have hpos : 0 < toRat x := by
    rw [hk]
    positivity
  obtain ⟨hvalue, hsig⟩ := toRat_magnitude hx hpos
  have hfixed : (log2Fixed (magnitude x) : ℚ) = k * 2 ^ (fractionLength : ℤ) := by
    rw [log2Fixed_of_powerOfTwo hsig (significand_lt x) (hvalue.trans hk), zpow_natCast]
    push_cast
    rfl
  have hclose := (isClosest_log2Fixed hx hpos).2
  rw [hfixed] at hclose
  have hrange : |k| ≤ 2 ^ 53 := (abs_exponent_le hx hk).trans (by decide)
  rw [(toRat_log2 hx hpos).2, hclose.eq hrange (by decide), zpow_natCast,
    mul_div_cancel_right₀ _ (by positivity)]

/-- In units of the last bit, the distance of the numbers around `y` is a power of two, and
    fifty-three places of that weight are enough for `y`. -/
theorem exists_spacing_eq {y : ℝ} (hgap : 1 / 2 ^ 53 ≤ |y|) :
    ∃ e : ℤ, 15 ≤ e ∧ spacing y = 2 ^ e / 2 ^ fractionLength ∧
      2 ^ fractionLength * |y| < 2 ^ 53 * 2 ^ e := by
  have hy : 0 < |y| := (by positivity : (0 : ℝ) < 1 / 2 ^ 53).trans_le hgap
  have hlog : -53 ≤ Int.log 2 |y| := by
    have hpow : ((2 : ℕ) : ℝ) ^ (-53 : ℤ) = 1 / 2 ^ 53 := by norm_num
    exact (Int.zpow_le_iff_le_log (by decide) hy).1 (hpow.trans_le hgap)
  have hbelow : |y| < 2 ^ (Int.log 2 |y| + 1) := Int.lt_zpow_succ_log_self (by decide : 1 < 2) |y|
  -- `e` is the place of the last bit of `y`, in units of the last bit computed
  obtain ⟨e, he⟩ : ∃ e : ℤ, e = Int.log 2 |y| - 52 + fractionLength := ⟨_, rfl⟩
  refine ⟨e, by unfold fractionLength at he; omega, ?_, ?_⟩
  · rw [spacing, max_eq_left (by unfold leastExponent; omega), he, zpow_add₀ two_ne_zero,
      zpow_natCast, mul_div_cancel_right₀ _ (by positivity)]
  · have hsplit : (2 : ℝ) ^ 53 * 2 ^ e = 2 ^ fractionLength * 2 ^ (Int.log 2 |y| + 1) := by
      rw [← zpow_natCast, ← zpow_natCast, ← zpow_add₀ two_ne_zero, ← zpow_add₀ two_ne_zero, he]
      congr 1
      push_cast
      ring
    rw [hsplit]
    exact mul_lt_mul_of_pos_left hbelow (by positivity)

/-- The error of rounding an integer, seen from real numbers. -/
theorem abs_cast_sub_le_half {f : ℚ} {n e : ℤ} (h : IsClosest f n) (he : leastExponent ≤ e)
    (hn : |(n : ℝ)| ≤ 2 ^ 53 * 2 ^ e + 2 ^ e / 2) : |(f : ℝ) - n| ≤ 2 ^ e / 2 := by
  have hrat : |(n : ℚ)| ≤ 2 ^ 53 * 2 ^ e + 2 ^ e / 2 := by
    refine (Rat.cast_le (K := ℝ)).1 ?_
    push_cast
    exact hn
  have hcast := (Rat.cast_le (K := ℝ)).2 (h.abs_sub_le_half_of_le_add he hrat)
  push_cast at hcast
  exact hcast

/-- The rounding takes half of the distance of numbers at most, and the truncated bits much less
    than the other half. -/
private theorem abs_div_sub_le_spacing {f : ℚ} {n : ℤ} {y : ℝ} (h : IsClosest f n)
    (hlow : n ≤ 2 ^ fractionLength * y) (hhigh : 2 ^ fractionLength * y < n + 2)
    (hgap : 1 / 2 ^ 53 ≤ |y|) : |(f : ℝ) / 2 ^ fractionLength - y| ≤ spacing y := by
  obtain ⟨e, he, hspacing, hscaled⟩ := exists_spacing_eq hgap
  have hunit : (2 : ℝ) ^ 15 ≤ 2 ^ e := by
    rw [← zpow_natCast]
    exact zpow_le_zpow_right₀ one_le_two he
  have hscale : (0 : ℝ) < 2 ^ fractionLength := by positivity
  -- the integer is not more than two away from `y`, in units of the last bit
  have hn : |(n : ℝ)| ≤ 2 ^ 53 * 2 ^ e + 2 ^ e / 2 := by
    rw [← abs_of_pos hscale, ← abs_mul] at hscaled
    have hy := abs_le.1 hscaled.le
    rw [abs_le]
    constructor <;> linarith
  obtain ⟨herr, herr'⟩ := abs_le.1 (abs_cast_sub_le_half h (by unfold leastExponent; omega) hn)
  have hdiff : (f : ℝ) / 2 ^ fractionLength - y =
      (f - 2 ^ fractionLength * y) / 2 ^ fractionLength := by
    rw [sub_div, mul_div_cancel_left₀ _ hscale.ne']
  rw [hspacing, hdiff, abs_div, abs_of_pos hscale]
  refine div_le_div_of_nonneg_right ?_ hscale.le
  rw [abs_le]
  constructor <;> linarith

/-- The logarithm is exact for powers of two, and within the distance of numbers for others. -/
theorem isLog2_log2 : IsLog2 log2 where
  finite _ hx hpos := (toRat_log2 hx hpos).1
  exact _ _ hx hk := toRat_log2_of_powerOfTwo hx hk
  close x hx hpos := by
    -- one has the logarithm zero, around which numbers are arbitrarily close
    by_cases hone : toRat x = 1
    · have hzero : toRat (log2 x) = (0 : ℤ) :=
        toRat_log2_of_powerOfTwo hx (hone.trans (zpow_zero 2).symm)
      rw [hone, hzero]
      simp only [Rat.cast_one, Real.logb_one, Int.cast_zero, Rat.cast_zero, sub_zero, abs_zero]
      exact (zpow_pos two_pos _).le
    · obtain ⟨hlow, hhigh⟩ := log2Fixed_magnitude_bounds hx hpos
      rw [(toRat_log2 hx hpos).2]
      push_cast
      exact abs_div_sub_le_spacing (isClosest_log2Fixed hx hpos).2 hlow hhigh
        (le_abs_log hx hpos hone)

end ScalarRoots.Binary64
