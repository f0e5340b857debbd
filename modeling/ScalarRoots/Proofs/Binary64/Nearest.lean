import ScalarRoots.Proofs.Binary64.Units

/-!
# The nearest binary64 number

Every operation gives the binary64 number that is nearest to the exact result, and the one
with an even significand if two are equally near.  Counted in units of the least positive
number, the exact result is a fraction, and the numbers around it stand at the multiples of a
power of two, its *ulp*.  Beyond the greatest finite number there is only infinity.

The function that rounds in this way is monotone and leaves binary64 numbers alone.  So a
binary64 number that does not lie below an exact result does not lie below the rounded one
either, and this is all that most arguments about rounding need.

## Key results

- `nearestEven_mono` / `nearestEven_natCast`: rounding to whole numbers
- `roundMagnitude_mono` / `roundMagnitude_mul_two_pow`: rounding to multiples of an ulp
- `abs_roundMagnitude_sub_le`: how far a rounded magnitude is from the exact one
- `roundUnits_mono` / `roundUnits_neg`: rounding to binary64 numbers
- `roundUnits_two_pow_le`: a power of two is never rounded up
-/

namespace ScalarRoots.Binary64

/-! ## Whole numbers -/

/-- The nearest natural number to a fraction that is not negative, a half going to the even
    one. -/
def nearestEven (q : ℚ) : ℕ :=
  if q - ⌊q⌋₊ < 1 / 2 then ⌊q⌋₊
  else if q - ⌊q⌋₊ = 1 / 2 then ⌊q⌋₊ + ⌊q⌋₊ % 2
  else ⌊q⌋₊ + 1

/-- It is no less than the whole part. -/
theorem floor_le_nearestEven (q : ℚ) : ⌊q⌋₊ ≤ nearestEven q := by
  unfold nearestEven
  split_ifs <;> omega

/-- It is at most one more than the whole part. -/
theorem nearestEven_le_floor_add_one (q : ℚ) : nearestEven q ≤ ⌊q⌋₊ + 1 := by
  unfold nearestEven
  split_ifs <;> omega

/-- A natural number is nearest to itself. -/
theorem nearestEven_natCast (n : ℕ) : nearestEven n = n := by
  unfold nearestEven
  rw [Nat.floor_natCast, sub_self, if_pos (by norm_num)]

/-- A greater fraction has no smaller nearest number. -/
theorem nearestEven_mono {p q : ℚ} (h : p ≤ q) : nearestEven p ≤ nearestEven q := by
  -- past a whole number, the two are rounded to either side of it
  rcases Nat.lt_or_eq_of_le (Nat.floor_mono h) with hlt | heq
  · calc nearestEven p ≤ ⌊p⌋₊ + 1 := nearestEven_le_floor_add_one p
      _ ≤ ⌊q⌋₊ := hlt
      _ ≤ nearestEven q := floor_le_nearestEven q
  · -- between the same whole numbers, the greater fraction is rounded up if the smaller one is
    have hsub : p - ⌊q⌋₊ ≤ q - ⌊q⌋₊ := sub_le_sub_right h _
    unfold nearestEven
    rw [heq]
    rcases lt_trichotomy (q - ⌊q⌋₊) (1 / 2) with hq | hq | hq
    · rw [if_pos (hsub.trans_lt hq), if_pos hq]
    · rw [if_neg hq.not_lt, if_pos hq]
      split_ifs with hp hp'
      · exact Nat.le_add_right ..
      · exact le_rfl
      · exact absurd (le_antisymm (hsub.trans_eq hq) (not_lt.1 hp)) hp'
    · rw [if_neg hq.not_gt, if_neg hq.ne']
      split_ifs <;> omega

/-- It is off by at most a half. -/
theorem abs_nearestEven_sub_le {q : ℚ} (hq : 0 ≤ q) : |(nearestEven q : ℚ) - q| ≤ 1 / 2 := by
  have hlow : (⌊q⌋₊ : ℚ) ≤ q := Nat.floor_le hq
  have hhigh : q < ⌊q⌋₊ + 1 := Nat.lt_floor_add_one q
  unfold nearestEven
  -- below a half, at a half, above a half
  split_ifs with hbelow hhalf
  · rw [abs_le]
    constructor <;> linarith
  · rw [abs_le]
    rcases Nat.mod_two_eq_zero_or_one ⌊q⌋₊ with heven | hodd
    · rw [heven, add_zero]
      constructor <;> linarith
    · rw [hodd]
      push_cast
      constructor <;> linarith
  · have habove : 1 / 2 < q - ⌊q⌋₊ := lt_of_le_of_ne (not_lt.1 hbelow) (Ne.symm hhalf)
    rw [abs_le]
    push_cast
    constructor <;> linarith

/-! ## Magnitudes -/

/-- The numbers around a magnitude of `q` units are multiples of this power of two: fifty-two
    binary places below the leading one, and never less than a unit. -/
def ulpExponent (q : ℚ) : ℕ := (Int.log 2 q - 52).toNat

/-- The magnitude that `q` units are rounded to, if there were no end to the exponents. -/
def roundMagnitude (q : ℚ) : ℕ := nearestEven (q / 2 ^ ulpExponent q) * 2 ^ ulpExponent q

/-- A greater magnitude has no smaller ulp. -/
theorem ulpExponent_mono {p q : ℚ} (hp : 0 < p) (h : p ≤ q) : ulpExponent p ≤ ulpExponent q :=
  Int.toNat_le_toNat (sub_le_sub_right (Int.log_mono_right hp h) 52)

/-- A magnitude below the one after `k` ulps has no greater ulp. -/
theorem ulpExponent_le {q : ℚ} {k : ℕ} (hq : 0 < q) (h : q < 2 ^ (53 + k)) :
    ulpExponent q ≤ k := by
  have hlog : Int.log 2 q < (53 + k : ℕ) :=
    (Int.lt_zpow_iff_log_lt (by decide) hq).1 (by exact_mod_cast h)
  unfold ulpExponent
  push_cast at hlog
  omega

/-- A magnitude has at most fifty-three binary places in front of its ulp. -/
theorem lt_two_pow_ulpExponent (q : ℚ) : q < 2 ^ (53 + ulpExponent q) := by
  have hlog : q < (2 : ℚ) ^ (Int.log 2 q + 1) := by
    exact_mod_cast Int.lt_zpow_succ_log_self (by decide : 1 < 2) q
  -- the ulp stands fifty-two places below the leading one, or higher
  have hle : Int.log 2 q + 1 ≤ ((53 + ulpExponent q : ℕ) : ℤ) := by
    unfold ulpExponent
    push_cast
    omega
  calc q < (2 : ℚ) ^ (Int.log 2 q + 1) := hlog
    _ ≤ (2 : ℚ) ^ ((53 + ulpExponent q : ℕ) : ℤ) := zpow_le_zpow_right₀ (by norm_num) hle
    _ = 2 ^ (53 + ulpExponent q) := zpow_natCast ..

/-- It has exactly as many when the ulp is more than a unit. -/
theorem two_pow_ulpExponent_le {q : ℚ} (hq : 0 < q) (h : 0 < ulpExponent q) :
    2 ^ (52 + ulpExponent q) ≤ q := by
  have hlog : (2 : ℚ) ^ Int.log 2 q ≤ q := by
    exact_mod_cast Int.zpow_log_le_self (by decide : 1 < 2) hq
  -- with an ulp of more than a unit, nothing is cut off in its definition
  have heq : Int.log 2 q = ((52 + ulpExponent q : ℕ) : ℤ) := by
    unfold ulpExponent at h ⊢
    push_cast
    omega
  rwa [heq, zpow_natCast] at hlog

/-- Rounded to ulps, a magnitude has fifty-three binary places, or is the next power of two. -/
theorem nearestEven_div_le (q : ℚ) : nearestEven (q / 2 ^ ulpExponent q) ≤ 2 ^ 53 := by
  have hbits : q / 2 ^ ulpExponent q ≤ (2 ^ 53 : ℕ) := by
    rw [div_le_iff₀ (by positivity), Nat.cast_pow, Nat.cast_ofNat, ← pow_add]
    exact (lt_two_pow_ulpExponent q).le
  exact (nearestEven_mono hbits).trans_eq (nearestEven_natCast _)

/-- Above one unit, a magnitude in ulps does not lose its leading place to rounding. -/
theorem two_pow_le_nearestEven_div {q : ℚ} (hq : 0 < q) (h : 0 < ulpExponent q) :
    2 ^ 52 ≤ nearestEven (q / 2 ^ ulpExponent q) := by
  have hbits : ((2 ^ 52 : ℕ) : ℚ) ≤ q / 2 ^ ulpExponent q := by
    rw [le_div_iff₀ (by positivity), Nat.cast_pow, Nat.cast_ofNat, ← pow_add]
    exact two_pow_ulpExponent_le hq h
  exact (nearestEven_natCast _).symm.trans_le (nearestEven_mono hbits)

/-- A magnitude with at most fifty-three binary places is left alone. -/
theorem roundMagnitude_mul_two_pow {m k : ℕ} (hm : m < 2 ^ 53) :
    roundMagnitude (m * 2 ^ k) = m * 2 ^ k := by
  rcases Nat.eq_zero_or_pos m with rfl | hpos
  · simp only [roundMagnitude, Nat.cast_zero, zero_mul, zero_div]
    rw [← Nat.cast_zero, nearestEven_natCast, zero_mul]
  have hq : (0 : ℚ) < m * 2 ^ k := by positivity
  -- its ulp is no more than the place its binary expansion ends at
  have hle : ulpExponent (m * 2 ^ k) ≤ k := by
    refine ulpExponent_le hq ?_
    rw [pow_add]
    exact mul_lt_mul_of_pos_right (by exact_mod_cast hm) (by positivity)
  obtain ⟨j, hj⟩ := Nat.exists_eq_add_of_le hle
  -- in ulps, it is a whole number
  have hwhole : (m * 2 ^ k : ℚ) / 2 ^ ulpExponent (m * 2 ^ k) = (m * 2 ^ j : ℕ) := by
    rw [div_eq_iff (by positivity)]
    conv_lhs => rw [hj, pow_add]
    push_cast
    ring
  unfold roundMagnitude
  rw [hwhole, nearestEven_natCast]
  conv_rhs => rw [hj, pow_add]
  ring

/-- Zero is left alone. -/
theorem roundMagnitude_zero : roundMagnitude 0 = 0 := by
  have hexact := roundMagnitude_mul_two_pow (m := 0) (k := 0) (by decide)
  simpa using hexact

/-- A greater magnitude is not rounded to a smaller one, even where the ulp changes. -/
theorem roundMagnitude_mono {p q : ℚ} (hp : 0 ≤ p) (h : p ≤ q) :
    roundMagnitude p ≤ roundMagnitude q := by
  rcases hp.eq_or_lt with rfl | hp
  · rw [roundMagnitude_zero]
    exact Nat.zero_le _
  have hq := hp.trans_le h
  rcases Nat.lt_or_eq_of_le (ulpExponent_mono hp h) with hlt | heq
  · -- the leading one of the greater magnitude lies beyond all places of the smaller one
    have hsmall := nearestEven_div_le p
    have hlarge := two_pow_le_nearestEven_div hq (Nat.zero_lt_of_lt hlt)
    calc roundMagnitude p ≤ 2 ^ 53 * 2 ^ ulpExponent p := Nat.mul_le_mul_right _ hsmall
      _ = 2 ^ 52 * 2 ^ (ulpExponent p + 1) := by ring
      _ ≤ 2 ^ 52 * 2 ^ ulpExponent q :=
          Nat.mul_le_mul_left _ (Nat.pow_le_pow_right (by decide) hlt)
      _ ≤ roundMagnitude q := Nat.mul_le_mul_right _ hlarge
  · unfold roundMagnitude
    rw [heq]
    exact Nat.mul_le_mul_right _ (nearestEven_mono (div_le_div_of_nonneg_right h (by positivity)))

/-- From fifty-three binary places on, rounding errs by at most one part in `2 ^ 53`. -/
theorem abs_roundMagnitude_sub_le {q : ℚ} (hq : 2 ^ 52 ≤ q) :
    |(roundMagnitude q : ℚ) - q| ≤ q / 2 ^ 53 := by
  set k := ulpExponent q
  have hpos : 0 < q := lt_of_lt_of_le (by positivity) hq
  have hscale : (0 : ℚ) < 2 ^ k := by positivity
  -- the magnitude is large against its ulp, of which rounding moves by a half
  have hlead : (2 : ℚ) ^ 52 * 2 ^ k ≤ q := by
    rcases Nat.eq_zero_or_pos k with hzero | hk
    · rwa [hzero, pow_zero, mul_one]
    · rw [← pow_add]
      exact two_pow_ulpExponent_le hpos hk
  have herror := abs_nearestEven_sub_le (div_nonneg hpos.le hscale.le)
  have hulps :
      ((roundMagnitude q : ℕ) : ℚ) - q = (nearestEven (q / 2 ^ k) - q / 2 ^ k) * 2 ^ k := by
    rw [sub_mul, div_mul_cancel₀ _ hscale.ne']
    unfold roundMagnitude
    push_cast
    rfl
  calc |(roundMagnitude q : ℚ) - q| = |(nearestEven (q / 2 ^ k) : ℚ) - q / 2 ^ k| * 2 ^ k := by
        rw [hulps, abs_mul, abs_of_pos hscale]
    _ ≤ 1 / 2 * 2 ^ k := mul_le_mul_of_nonneg_right herror hscale.le
    _ ≤ q / 2 ^ 53 := by linarith

/-- So it does on whole numbers of units, of which the shorter ones are left alone. -/
theorem abs_roundMagnitude_natCast_sub_le (n : ℕ) :
    |(roundMagnitude n : ℚ) - n| ≤ n / 2 ^ 53 := by
  -- short numbers are exact; for long ones the general bound holds
  rcases Nat.lt_or_ge n (2 ^ 53) with hshort | hlong
  · have hexact := roundMagnitude_mul_two_pow (k := 0) hshort
    rw [pow_zero, mul_one, pow_zero, mul_one] at hexact
    rw [hexact, sub_self, abs_zero]
    positivity
  · refine abs_roundMagnitude_sub_le ?_
    calc (2 : ℚ) ^ 52 ≤ (2 ^ 53 : ℕ) := by norm_num
      _ ≤ n := Nat.cast_le.2 hlong

/-! ## Numbers -/

/-- The units of the binary64 number nearest to `q` units: with the sign of `q`, and at most
    those of infinity. -/
def roundUnits (q : ℚ) : ℤ :=
  if q < 0 then -(min (roundMagnitude (-q)) infinityUnits : ℕ)
  else (min (roundMagnitude q) infinityUnits : ℕ)

/-- Without a sign, only infinity sets a bound to rounding. -/
theorem roundUnits_of_nonneg {q : ℚ} (h : 0 ≤ q) :
    roundUnits q = (min (roundMagnitude q) infinityUnits : ℕ) := if_neg (not_lt.2 h)

/-- Rounding does not lead below zero. -/
theorem roundUnits_nonneg {q : ℚ} (h : 0 ≤ q) : 0 ≤ roundUnits q := by
  rw [roundUnits_of_nonneg h]
  exact Int.natCast_nonneg _

/-- A number is rounded to infinity at most. -/
theorem roundUnits_le_roundMagnitude {q : ℚ} (h : 0 ≤ q) : roundUnits q ≤ roundMagnitude q := by
  rw [roundUnits_of_nonneg h]
  exact Nat.cast_le.2 (min_le_left _ _)

/-- Short of infinity, there is no end to the exponents. -/
theorem roundUnits_eq_roundMagnitude {q : ℚ} (h : 0 ≤ q) (hlt : roundUnits q < infinityUnits) :
    roundUnits q = roundMagnitude q := by
  rw [roundUnits_of_nonneg h, Nat.cast_lt, min_lt_iff, lt_self_iff_false, or_false] at hlt
  rw [roundUnits_of_nonneg h, min_eq_left hlt.le]

/-- Rounding is symmetric about zero. -/
theorem roundUnits_neg (q : ℚ) : roundUnits (-q) = -roundUnits q := by
  rcases lt_trichotomy q 0 with h | rfl | h
  · rw [roundUnits_of_nonneg (neg_nonneg.2 h.le)]
    unfold roundUnits
    rw [if_pos h, neg_neg]
  · rw [neg_zero, roundUnits_of_nonneg le_rfl, roundMagnitude_zero, Nat.zero_min, Nat.cast_zero,
      neg_zero]
  · rw [roundUnits_of_nonneg h.le]
    unfold roundUnits
    rw [if_pos (neg_lt_zero.2 h), neg_neg]

/-- Rounding is monotone across all signs. -/
theorem roundUnits_mono {p q : ℚ} (h : p ≤ q) : roundUnits p ≤ roundUnits q := by
  -- the general case follows from that of magnitudes by symmetry
  have hnonneg : ∀ {p q : ℚ}, 0 ≤ p → p ≤ q → roundUnits p ≤ roundUnits q := by
    intro p q hp hpq
    rw [roundUnits_of_nonneg hp, roundUnits_of_nonneg (hp.trans hpq)]
    exact Nat.cast_le.2 (min_le_min_right _ (roundMagnitude_mono hp hpq))
  rcases le_total 0 p with hp | hp
  · exact hnonneg hp h
  rcases le_total 0 q with hq | hq
  · -- zero lies between the two
    have hzero := roundUnits_nonneg hq
    have hzero' := roundUnits_nonneg (neg_nonneg.2 hp)
    rw [roundUnits_neg] at hzero'
    omega
  · have hneg := hnonneg (neg_nonneg.2 hq) (neg_le_neg h)
    rw [roundUnits_neg, roundUnits_neg] at hneg
    omega

/-- A magnitude is rounded to the magnitude of the rounded number. -/
theorem roundUnits_abs (q : ℚ) : roundUnits |q| = |roundUnits q| := by
  rcases le_total 0 q with h | h
  · rw [abs_of_nonneg h, abs_of_nonneg (roundUnits_nonneg h)]
  · rw [abs_of_nonpos h, ← abs_of_nonneg (roundUnits_nonneg (neg_nonneg.2 h)), roundUnits_neg,
      abs_neg]

/-- So a greater magnitude is not rounded to a smaller one, whatever the signs. -/
theorem abs_roundUnits_le {p q : ℚ} (h : |p| ≤ |q|) : |roundUnits p| ≤ |roundUnits q| := by
  rw [← roundUnits_abs, ← roundUnits_abs]
  exact roundUnits_mono h

/-- What has at most fifty-three binary places is left alone, short of infinity. -/
theorem roundUnits_mul_two_pow {m k : ℕ} (hm : m < 2 ^ 53) (hk : m * 2 ^ k ≤ infinityUnits) :
    roundUnits (m * 2 ^ k) = (m * 2 ^ k : ℕ) := by
  have hq : (0 : ℚ) ≤ m * 2 ^ k := mul_nonneg m.cast_nonneg (pow_nonneg zero_le_two k)
  rw [roundUnits_of_nonneg hq, roundMagnitude_mul_two_pow hm, min_eq_left hk]

/-- Zero is rounded to zero. -/
theorem roundUnits_zero : roundUnits 0 = 0 := by
  rw [roundUnits_of_nonneg le_rfl, roundMagnitude_zero, Nat.zero_min, Nat.cast_zero]

/-- A power of two is never rounded up. -/
theorem roundUnits_two_pow_le (k : ℕ) : roundUnits (2 ^ k) ≤ 2 ^ k := by
  have hexact := roundMagnitude_mul_two_pow (m := 1) (k := k) (by decide)
  rw [Nat.cast_one, one_mul, one_mul] at hexact
  rw [roundUnits_of_nonneg (by positivity), hexact]
  -- as a number, infinity is too large to compute with
  generalize infinityUnits = top
  exact_mod_cast Nat.min_le_left (2 ^ k) top

end ScalarRoots.Binary64
