import ScalarRoots.Proofs.Binary64.Nearest

/-!
# Rounding of unpacked numbers

An operation on unpacked numbers hands an exact result to the rounding as a significand, an
exponent and two bits for what lies below the significand.  The rounding moves the exponent to
the ulp of the result, which loses nothing that the two bits cannot tell, then rounds the
significand, and once more moves the exponent in case the significand has grown.  What comes
out, once it is packed, is the nearest binary64 number to the exact result.

## Key results

- `Represents`: what a significand and its two bits say about the exact significand
- `Represents.roundedMantissa`: they are enough to round it
- `roundWithAccuracy_isRounded`: the rounded number, before packing
- `unitsOf_pack`: packing keeps it, or makes it infinite
- `roundsTo_roundWithAccuracy` / `roundsTo_normalize`: both together
-/

namespace ScalarRoots.Binary64

open Float.Model Float.Model.UnpackedFloat

/-! ## Significands with a remainder -/

/-- The extended significand stands for the fraction `x`.  In halves it is below `x` by less
    than one half, and its last bit tells whether it is below at all. -/
def Represents (em : ExtendedMantissa) (x : ℚ) : Prop :=
  let halves : ℕ := 2 * em.mantissa + em.roundBit.toNat
  if em.stickyBit then (halves : ℚ) < 2 * x ∧ 2 * x < halves + 1 else 2 * x = halves

/-- A significand without a remainder stands for itself. -/
theorem represents_exact (m : ℕ) : Represents (.ofMantissaAndAccuracy m .exact) m := by
  simp [Represents, ExtendedMantissa.ofMantissaAndAccuracy]

/-- A quotient is represented by its whole part and the size of the remainder. -/
theorem represents_div (n : ℕ) {d : ℕ} (hd : 0 < d) :
    Represents (.ofMantissaAndAccuracy (n / d) (accuracyOfFraction (n % d) d)) (n / d : ℚ) := by
  have hd' : (0 : ℚ) < d := by exact_mod_cast hd
  have hdiv : (d * (n / d : ℕ) + (n % d : ℕ) : ℚ) = n := by exact_mod_cast Nat.div_add_mod n d
  have hlt : ((n % d : ℕ) : ℚ) < d := by exact_mod_cast Nat.mod_lt n hd
  have hquot : (n / d : ℚ) = (n / d : ℕ) + (n % d : ℕ) / d := by
    rw [← hdiv, add_div, mul_div_cancel_left₀ _ hd'.ne']
  rw [hquot]
  unfold accuracyOfFraction
  split_ifs with hzero
  · simp [Represents, ExtendedMantissa.ofMantissaAndAccuracy, hzero]
  · have hpos : (0 : ℚ) < (n % d : ℕ) / d :=
      div_pos (by exact_mod_cast Nat.pos_of_ne_zero hzero) hd'
    have hone : ((n % d : ℕ) / d : ℚ) < 1 := (div_lt_one hd').2 hlt
    -- the remainder is compared with half of the divisor
    cases hcmp : compare (2 * (n % d)) d with
    | lt =>
      have hhalf : (2 * (n % d : ℕ) : ℚ) < d := by exact_mod_cast compare_lt_iff_lt.1 hcmp
      have hfrac : 2 * ((n % d : ℕ) / d : ℚ) < 1 := by
        rw [← mul_div_assoc, div_lt_one hd']
        exact hhalf
      simp only [Represents, ExtendedMantissa.ofMantissaAndAccuracy, if_true, Bool.toNat_false]
      push_cast
      constructor <;> linarith
    | eq =>
      have hhalf : (2 * (n % d : ℕ) : ℚ) = d := by exact_mod_cast compare_eq_iff_eq.1 hcmp
      have hfrac : 2 * ((n % d : ℕ) / d : ℚ) = 1 := by
        rw [← mul_div_assoc, hhalf, div_self hd'.ne']
      simp only [Represents, ExtendedMantissa.ofMantissaAndAccuracy, Bool.false_eq_true,
        if_false, Bool.toNat_true]
      push_cast
      linarith
    | gt =>
      have hhalf : (d : ℚ) < 2 * (n % d : ℕ) := by exact_mod_cast compare_gt_iff_gt.1 hcmp
      have hfrac : 1 < 2 * ((n % d : ℕ) / d : ℚ) := by
        rw [← mul_div_assoc, one_lt_div hd']
        exact hhalf
      simp only [Represents, ExtendedMantissa.ofMantissaAndAccuracy, if_true, Bool.toNat_true]
      push_cast
      constructor <;> linarith

namespace Represents

variable {em : ExtendedMantissa} {x : ℚ}

/-- The significand is the whole part of what it stands for. -/
theorem bounds (h : Represents em x) : (em.mantissa : ℚ) ≤ x ∧ x < em.mantissa + 1 := by
  rcases em with ⟨m, r, s⟩
  cases r <;> cases s <;> simp [Represents] at h ⊢ <;> constructor <;> linarith

/-- The same as an equation. -/
theorem floor_eq (h : Represents em x) : ⌊x⌋₊ = em.mantissa := by
  obtain ⟨hle, hlt⟩ := h.bounds
  exact (Nat.floor_eq_iff (hle.trans' em.mantissa.cast_nonneg)).2 ⟨hle, hlt⟩

/-- Moving a significand by one place halves what it stands for. -/
theorem shiftRightOne (h : Represents em x) : Represents em.shiftRightOne (x / 2) := by
  rcases em with ⟨m, r, s⟩
  -- the bit that falls out becomes the next round bit, and that one sticks
  have hhalves : 2 * (m / 2) + (m % 2 != 0).toNat = m := by
    rcases Nat.mod_two_eq_zero_or_one m with hm | hm <;> simp [hm] <;> omega
  unfold Represents ExtendedMantissa.shiftRightOne
  simp only [hhalves, mul_div_cancel₀ x (two_ne_zero (α := ℚ))]
  cases r <;> cases s <;> simp [Represents] at h ⊢ <;> first | linarith | constructor <;> linarith

/-- Moving by several places divides by a power of two. -/
theorem shiftRight (h : Represents em x) (n : ℕ) : Represents (em >>> n) (x / 2 ^ n) := by
  show Represents (n.repeat ExtendedMantissa.shiftRightOne em) _
  induction n with
  | zero => simpa [Nat.repeat] using h
  | succ n ih =>
    rw [Nat.repeat, pow_succ, ← div_div]
    exact ih.shiftRightOne

/-- The bits below a significand are enough to round what it stands for. -/
theorem roundedMantissa (h : Represents em x) : em.roundedMantissa = nearestEven x := by
  have hfloor := h.floor_eq
  unfold nearestEven
  rw [hfloor]
  -- the two bits tell four cases: exact, below a half, a half, above a half
  rcases em with ⟨m, r, s⟩
  simp only [ExtendedMantissa.roundedMantissa]
  cases r <;> cases s <;> simp only [Represents, ExtendedMantissa.accuracy,
    Accuracy.roundToNearestEven, Bool.false_eq_true, if_true, if_false, Bool.toNat_false,
    Bool.toNat_true] at h ⊢ <;> push_cast at h
  · rw [if_pos (by linarith)]
  · rw [if_pos (by linarith [h.2])]
  · rw [if_neg (by linarith), if_pos (by linarith)]
  · rw [if_neg (by linarith [h.1]), if_neg (by linarith [h.1])]

end Represents

/-! ## Exponents -/

/-- The exponent that the rounding moves a significand and its exponent to. -/
def ulpOf (m : ℕ) (e : ℤ) : ℤ := Format.binary64.targetExponent (totalExponent m e)

/-- The exponent is that of the fifty-third place, and never below the least one. -/
theorem ulpOf_eq (m : ℕ) (e : ℤ) : ulpOf m e = max (m.log2 + e - 52) leastExponent := by
  simp only [ulpOf, Format.targetExponent, totalExponent, Format.mantissaBits,
    Format.minExponent, leastExponent]
  omega

/-- The binary logarithm of a fraction, told from its whole part. -/
theorem log_mul_zpow {m : ℕ} {x : ℚ} (hm : 0 < m) (hle : (m : ℚ) ≤ x) (hlt : x < m + 1) (z : ℤ) :
    Int.log 2 (x * 2 ^ z) = m.log2 + z := by
  have hx : 0 < x := lt_of_lt_of_le (by exact_mod_cast hm) hle
  have hpos : 0 < x * 2 ^ z := mul_pos hx (zpow_pos two_pos z)
  -- between a power of two and the next, and not beyond it
  have hlow : ((2 : ℕ) : ℚ) ^ (m.log2 + z : ℤ) ≤ x * 2 ^ z := by
    rw [Nat.cast_ofNat, zpow_add₀ two_ne_zero, zpow_natCast]
    have hself : (2 ^ m.log2 : ℚ) ≤ m := by exact_mod_cast Nat.log2_self_le hm.ne'
    exact mul_le_mul_of_nonneg_right (hself.trans hle) (zpow_pos two_pos z).le
  have hhigh : x * 2 ^ z < ((2 : ℕ) : ℚ) ^ (m.log2 + z + 1 : ℤ) := by
    rw [Nat.cast_ofNat, add_right_comm, zpow_add₀ two_ne_zero]
    have hself : (m + 1 : ℚ) ≤ 2 ^ ((m.log2 : ℤ) + 1) := by
      exact_mod_cast Nat.succ_le_of_lt (Nat.lt_log2_self (n := m))
    exact mul_lt_mul_of_pos_right (hlt.trans_le hself) (zpow_pos two_pos z)
  have hle' := (Int.zpow_le_iff_le_log (by decide) hpos).1 hlow
  have hlt' := (Int.lt_zpow_iff_log_lt (by decide) hpos).1 hhigh
  omega

/-- The rounding finds the ulp of what a significand and its exponent stand for, when the
    significand is not zero or counts units or less. -/
theorem ulpExponent_eq {em : ExtendedMantissa} {x : ℚ} {e : ℤ} (hx : Represents em x)
    (hpos : 0 < x) (hlead : 0 < em.mantissa ∨ e ≤ leastExponent) :
    (ulpExponent (x * 2 ^ (e - leastExponent)) : ℤ) = ulpOf em.mantissa e - leastExponent := by
  obtain ⟨hle, hlt⟩ := hx.bounds
  rw [ulpOf_eq]
  unfold ulpExponent
  rcases Nat.eq_zero_or_pos em.mantissa with hzero | hm
  · -- less than a unit
    have he : e ≤ leastExponent := hlead.resolve_left hzero.not_gt
    have hone : x * 2 ^ (e - leastExponent) < ((2 : ℕ) : ℚ) ^ (0 : ℤ) := by
      rw [hzero, Nat.cast_zero, zero_add] at hlt
      calc x * 2 ^ (e - leastExponent) ≤ x * 2 ^ (0 : ℤ) :=
            mul_le_mul_of_nonneg_left (zpow_le_zpow_right₀ one_le_two (by omega)) hpos.le
        _ < ((2 : ℕ) : ℚ) ^ (0 : ℤ) := by simpa using hlt
    have hlog := (Int.lt_zpow_iff_log_lt (by decide)
      (mul_pos hpos (zpow_pos two_pos (e - leastExponent)))).1 hone
    rw [hzero, Nat.log2_zero]
    omega
  · rw [log_mul_zpow hm hle hlt]
    omega

/-- The first move of the rounding: the exponent becomes that of the ulp. -/
theorem shiftToTargetExponent_eq {m : ℕ} {e : ℤ} {a : Accuracy} (he : e ≤ ulpOf m e) :
    shiftToTargetExponent Format.binary64 m e a =
      (ExtendedMantissa.ofMantissaAndAccuracy m a >>> (ulpOf m e - e).toNat, ulpOf m e) := by
  show (ExtendedMantissa.ofMantissaAndAccuracy m a >>> (ulpOf m e - e).toNat,
    e + ((ulpOf m e - e).toNat : ℤ)) = _
  rw [Int.toNat_of_nonneg (Int.sub_nonneg_of_le he), add_sub_cancel]

/-- The second move finds nothing to do for a significand that fits. -/
theorem shiftToTargetExponent_of_lt {m : ℕ} {e : ℤ} (hm : m < 2 ^ 53) (he : leastExponent ≤ e) :
    shiftToTargetExponent Format.binary64 m e .exact = (⟨m, false, false⟩, e) := by
  have hlog : m.log2 ≤ 52 := by
    rcases Nat.eq_zero_or_pos m with rfl | hpos
    · decide
    · have := (Nat.log2_lt hpos.ne').2 hm
      omega
  have hulp : ulpOf m e ≤ e := by
    rw [ulpOf_eq]
    omega
  show (ExtendedMantissa.ofMantissaAndAccuracy m .exact >>> (ulpOf m e - e).toNat,
    e + ((ulpOf m e - e).toNat : ℤ)) = _
  rw [Int.toNat_of_nonpos (Int.sub_nonpos_of_le hulp), Nat.cast_zero, add_zero]
  rfl

/-- It takes one place off a significand that has grown by one. -/
theorem shiftToTargetExponent_of_eq {e : ℤ} (he : leastExponent ≤ e) :
    shiftToTargetExponent Format.binary64 (2 ^ 53) e .exact =
      (⟨2 ^ 52, false, false⟩, e + 1) := by
  have hulp : ulpOf (2 ^ 53) e = e + 1 := by
    rw [ulpOf_eq, Nat.log2_two_pow]
    omega
  rw [shiftToTargetExponent_eq (by omega), hulp, add_sub_cancel_left]
  rfl

/-! ## Rounded numbers -/

/-- The number has the given sign and magnitude, in units.  Its significand has at most
    fifty-three bits, and exactly as many unless the exponent is the least one.  The exponent
    may still be too large. -/
def IsRounded (s : Sign) (n : ℕ) : UnpackedFloat → Prop
  | .finite s' m e _ => s' = s ∧ m * 2 ^ (e - leastExponent).toNat = n ∧
      m < 2 ^ 53 ∧ leastExponent ≤ e ∧ (2 ^ 52 ≤ m ∨ e = leastExponent)
  | .zero _ => n = 0
  | _ => False

/-- Rounding gives the magnitude that is nearest to the exact one, with the same sign. -/
theorem roundWithAccuracy_isRounded (s : Sign) {m : ℕ} {e : ℤ} {a : Accuracy} {x : ℚ}
    (hx : Represents (.ofMantissaAndAccuracy m a) x) (hpos : 0 < x)
    (hlead : 0 < m ∨ e ≤ leastExponent) (he : e ≤ ulpOf m e) :
    IsRounded s (roundMagnitude (x * 2 ^ (e - leastExponent)))
      (roundWithAccuracy Format.binary64 s m e a) := by
  have hm : (ExtendedMantissa.ofMantissaAndAccuracy m a).mantissa = m := by
    rcases a with _ | (_ | _ | _) <;> rfl
  have hleast : leastExponent ≤ ulpOf m e := by
    rw [ulpOf_eq]
    exact le_max_right _ _
  -- `k` is the exponent in units of the ulp that the rounding has found
  set q : ℚ := x * 2 ^ (e - leastExponent) with hq
  set k := ulpExponent q with hk
  have hqpos : 0 < q := mul_pos hpos (zpow_pos two_pos _)
  have hulp : ulpOf m e = leastExponent + k := by
    have heq := ulpExponent_eq hx hpos (hm.symm ▸ hlead)
    rw [hm, ← hq, ← hk] at heq
    omega
  -- moved to the ulp, the significand stands for the result in ulps
  have hround : (ExtendedMantissa.ofMantissaAndAccuracy m a >>>
      (ulpOf m e - e).toNat).roundedMantissa = nearestEven (q / 2 ^ k) := by
    rw [(hx.shiftRight _).roundedMantissa]
    congr 1
    rw [div_eq_div_iff (by positivity) (by positivity), hq, mul_assoc, ← zpow_natCast,
      ← zpow_natCast, ← zpow_add₀ two_ne_zero, Int.toNat_of_nonneg (Int.sub_nonneg_of_le he)]
    congr 2
    omega
  have hexact : (ulpOf m e - leastExponent).toNat = k := by omega
  have hbound : nearestEven (q / 2 ^ k) ≤ 2 ^ 53 := nearestEven_div_le q
  have hlow : 2 ^ 52 ≤ nearestEven (q / 2 ^ k) ∨ ulpOf m e = leastExponent := by
    rcases Nat.eq_zero_or_pos k with hzero | hpos
    · exact .inr (by omega)
    · exact .inl (two_pow_le_nearestEven_div hqpos hpos)
  have hmagnitude : roundMagnitude q = nearestEven (q / 2 ^ k) * 2 ^ k := rfl
  unfold roundWithAccuracy
  simp only [shiftToTargetExponent_eq he, hround, hmagnitude]
  generalize nearestEven (q / 2 ^ k) = r at *
  -- the rounded significand fits, or it has grown to the next power of two
  rcases hbound.lt_or_eq with hlt | rfl
  · simp only [shiftToTargetExponent_of_lt hlt hleast]
    split_ifs with hzero
    · show r * 2 ^ k = 0
      rw [hzero, Nat.zero_mul]
    · exact ⟨rfl, by rw [hexact], hlt, hleast, hlow⟩
  · simp only [shiftToTargetExponent_of_eq hleast]
    rw [dif_neg (by decide)]
    refine ⟨rfl, ?_, by decide, by omega, .inl le_rfl⟩
    rw [show (ulpOf m e + 1 - leastExponent).toNat = k + 1 by omega, pow_succ]
    ring

/-! ## Packing -/

/-- The word that the number is packed into holds the binary64 number nearest to `q` units. -/
def RoundsTo (u : UnpackedFloat) (q : ℚ) : Prop :=
  (Float.Model.pack u).unpack.isNaN = false ∧ unitsOf (Float.Model.pack u).unpack = roundUnits q

/-- Beyond the greatest exponent there is only infinity. -/
theorem unpack_pack_of_lt {s : Sign} {m : ℕ} {e : ℤ} {hm : 0 < m} (h : greatestExponent < e) :
    (Float.Model.pack (.finite s m e hm)).unpack = .infinity s := by
  have hbig : 2 ^ 11 ≤ (e + Format.binary64.exponentBias + (52 : ℕ)).toNat + 1 := by
    simp only [greatestExponent, Format.exponentBias] at *
    omega
  have hpack : Float.Model.pack (.finite s m e hm) = Float.Model.pack (.infinity s) := by
    unfold Float.Model.pack
    congr 2
    exact if_pos hbig
  rw [hpack]
  exact unpack_pack (u := .infinity s) trivial

/-- Packing keeps a rounded number, or makes it infinite. -/
theorem unitsOf_pack {s : Sign} {n : ℕ} {u : UnpackedFloat} (h : IsRounded s n u) :
    (Float.Model.pack u).unpack.isNaN = false ∧
      unitsOf (Float.Model.pack u).unpack = s.apply (min n infinityUnits : ℕ) := by
  cases u with
  | infinity s' => exact h.elim
  | notANumber => exact h.elim
  | zero s' =>
    obtain rfl : n = 0 := h
    rw [unpack_pack (u := .zero s') trivial, Nat.zero_min]
    cases s <;> exact ⟨rfl, rfl⟩
  | finite s' m e hm =>
    obtain ⟨rfl, rfl, hbits, hlow, hlead⟩ := h
    rcases le_or_gt e greatestExponent with hle | hlt
    · have hcanonical : IsCanonical (.finite s' m e hm) := ⟨hbits, hlow, hle, hlead⟩
      rw [unpack_pack hcanonical, min_eq_left (units_lt_infinity hcanonical).le]
      exact ⟨rfl, rfl⟩
    -- with too large an exponent all places are used, which is more than infinity counts
    · have hnormal : 2 ^ 52 ≤ m := hlead.resolve_right fun heq => by
        simp only [greatestExponent, leastExponent] at *
        omega
      have hinfinite : infinityUnits ≤ m * 2 ^ (e - leastExponent).toNat := by
        have hexp : (greatestExponent - leastExponent).toNat + 1 ≤ (e - leastExponent).toNat := by
          simp only [greatestExponent, leastExponent] at *
          omega
        calc infinityUnits = 2 ^ 52 * 2 ^ ((greatestExponent - leastExponent).toNat + 1) := by
              rw [infinityUnits]
              ring
          _ ≤ m * 2 ^ (e - leastExponent).toNat :=
              Nat.mul_le_mul hnormal (Nat.pow_le_pow_right (by decide) hexp)
      rw [unpack_pack_of_lt hlt, min_eq_right hinfinite]
      exact ⟨rfl, rfl⟩

/-- A fraction with a sign. -/
def signed : Sign → ℚ → ℚ
  | .negative, x => -x
  | .positive, x => x

/-- A sign does not take part in the rounding. -/
theorem roundUnits_signed (s : Sign) {x : ℚ} (hx : 0 ≤ x) :
    roundUnits (signed s x) = s.apply (min (roundMagnitude x) infinityUnits : ℕ) := by
  cases s with
  | negative => exact (roundUnits_neg x).trans (congrArg Neg.neg (roundUnits_of_nonneg hx))
  | positive => exact roundUnits_of_nonneg hx

/-- A number with the rounded magnitude is packed into the nearest number. -/
theorem IsRounded.roundsTo {s : Sign} {x : ℚ} {u : UnpackedFloat} (hx : 0 ≤ x)
    (h : IsRounded s (roundMagnitude x) u) : RoundsTo u (signed s x) := by
  obtain ⟨hnan, hunits⟩ := unitsOf_pack h
  exact ⟨hnan, hunits.trans (roundUnits_signed s hx).symm⟩

/-- Rounding and packing give the nearest binary64 number. -/
theorem roundsTo_roundWithAccuracy (s : Sign) {m : ℕ} {e : ℤ} {a : Accuracy} {x : ℚ}
    (hx : Represents (.ofMantissaAndAccuracy m a) x) (hpos : 0 < x)
    (hlead : 0 < m ∨ e ≤ leastExponent) (he : e ≤ ulpOf m e) :
    RoundsTo (roundWithAccuracy Format.binary64 s m e a)
      (signed s (x * 2 ^ (e - leastExponent))) :=
  (roundWithAccuracy_isRounded s hx hpos hlead he).roundsTo
    (mul_nonneg hpos.le (zpow_pos two_pos _).le)

/-- Places put in front of an exponent leave the ulp where it is. -/
theorem ulpOf_shiftLeft {m : ℕ} (hm : 0 < m) (e : ℤ) (k : ℕ) :
    ulpOf (m <<< k) (e - k) = ulpOf m e := by
  -- the leading place moves up by as many places
  have hlog : (m <<< k).log2 = m.log2 + k := by
    rw [Nat.log2_eq_iff (Nat.shiftLeft_pos_iff.2 hm).ne', Nat.shiftLeft_eq, pow_add, add_right_comm,
      pow_add]
    exact ⟨Nat.mul_le_mul_right _ (Nat.log2_self_le hm.ne'),
      Nat.mul_lt_mul_of_pos_right Nat.lt_log2_self (Nat.two_pow_pos k)⟩
  rw [ulpOf_eq, ulpOf_eq, hlog]
  push_cast
  congr 1
  ring

/-- The exponent may be too large at first. -/
theorem roundsTo_round (s : Sign) {m : ℕ} (hm : 0 < m) (e : ℤ) :
    RoundsTo (round Format.binary64 s m e) (signed s (m * 2 ^ (e - leastExponent))) := by
  set k := (e - ulpOf m e).toNat with hk
  have hround : round Format.binary64 s m e =
      roundWithAccuracy Format.binary64 s (m <<< k) (e - k) .exact := rfl
  have hpos : 0 < m <<< k := Nat.shiftLeft_pos_iff.2 hm
  -- the places put in front are taken off the exponent
  have hvalue : ((m <<< k : ℕ) : ℚ) * 2 ^ (e - k - leastExponent) =
      m * 2 ^ (e - leastExponent) := by
    rw [Nat.shiftLeft_eq, Nat.cast_mul, Nat.cast_pow, Nat.cast_ofNat, mul_assoc, ← zpow_natCast,
      ← zpow_add₀ two_ne_zero]
    congr 2
    ring
  have hulp : e - k ≤ ulpOf (m <<< k) (e - k) := by
    rw [ulpOf_shiftLeft hm]
    omega
  have hnearest := roundsTo_roundWithAccuracy s (represents_exact (m <<< k))
    (Nat.cast_pos.2 hpos) (.inl hpos) hulp
  rwa [hvalue, ← hround] at hnearest

/-- An integer with an exponent is rounded to the nearest number as well. -/
theorem roundsTo_normalize (m e : ℤ) (zeroSign : Sign) :
    RoundsTo (UnpackedFloat.normalize Format.binary64 m e zeroSign)
      (m * 2 ^ (e - leastExponent)) := by
  unfold UnpackedFloat.normalize
  -- the sign of the integer decides; a zero has the sign that was asked for
  rcases lt_trichotomy m 0 with hlt | rfl | hgt
  · rw [compare_lt_iff_lt.2 hlt]
    have hround := roundsTo_round .negative (m := (-m).toNat) (by omega) e
    have hcast : (((-m).toNat : ℕ) : ℚ) = -m := by
      exact_mod_cast Int.toNat_of_nonneg (by omega : 0 ≤ -m)
    rw [hcast, signed, neg_mul, neg_neg] at hround
    exact hround
  · have hzero := (show IsRounded zeroSign (roundMagnitude 0) (.zero zeroSign) from
      roundMagnitude_zero).roundsTo le_rfl
    rw [compare_eq_iff_eq.2 rfl, Int.cast_zero, zero_mul]
    cases zeroSign with
    | negative => rwa [signed, neg_zero] at hzero
    | positive => exact hzero
  · rw [compare_gt_iff_gt.2 hgt]
    have hround := roundsTo_round .positive (m := m.toNat) (by omega) e
    have hcast : ((m.toNat : ℕ) : ℚ) = m := by
      exact_mod_cast Int.toNat_of_nonneg hgt.le
    rw [hcast, signed] at hround
    exact hround

end ScalarRoots.Binary64
