import ScalarRoots.Binary64.Rounding
import ScalarRoots.Proofs.Binary64.Closest
import ScalarRoots.Proofs.Binary64.Sum

/-!
# Whole numbers

A natural number of fifty-three binary places turns into the number that stands for it, and a
number that is not negative turns into a word by losing its fraction.  The fraction has no more
binary places than the number, so subtracting the whole part loses nothing, and looking at the
difference rounds a number to a whole one exactly.

## Key results

- `toRat_toFloat` / `toRat_ofNat`: natural numbers
- `toNat_toUInt64`: the whole part
- `toRat_sub_floor`: the fraction
- `toRat_roundHalfAway`: rounding to a whole number, half a unit going up
- `roundHalfAway_neg`: the same for negative numbers
- `ceilToNat_eq`: the least whole number that is not smaller
-/

namespace ScalarRoots.Binary64

/-! ## Comparisons -/

/-- Finite numbers are in the order of their fractions. -/
theorem le_iff_toRat {x y : Float} (hx : x.isFinite = true) (hy : y.isFinite = true) :
    x ≤ y ↔ toRat x ≤ toRat y := by
  rw [le_iff, and_iff_right ⟨isNaN_of_isFinite hx, isNaN_of_isFinite hy⟩, toRat, toRat,
    div_le_div_iff_of_pos_right unitsPerOne_pos, Int.cast_le]

/-- The same for the strict order. -/
theorem lt_iff_toRat {x y : Float} (hx : x.isFinite = true) (hy : y.isFinite = true) :
    x < y ↔ toRat x < toRat y := by
  rw [lt_iff, and_iff_right ⟨isNaN_of_isFinite hx, isNaN_of_isFinite hy⟩, toRat, toRat,
    div_lt_div_iff_of_pos_right unitsPerOne_pos, Int.cast_lt]

/-- A finite number is positive when its fraction is. -/
theorem pos_iff_toRat {x : Float} (hx : x.isFinite = true) : 0 < x ↔ 0 < toRat x := by
  rw [lt_iff_toRat (by decide) hx, toRat_zero]

/-- A number with a sign is below zero unless it is zero. -/
theorem toRat_neg_of_signBit {x : Float} (hx : x.isFinite = true) (hne : toRat x ≠ 0)
    (hsign : signBit x = true) : toRat x < 0 := by
  have hbeq : (x == 0) = false := Bool.eq_false_iff.2 fun h =>
    hne ((toRat_of_beq h).trans toRat_zero)
  have hlt := (lt_iff_toRat hx (by decide)).1 (lt_zero_iff.2 ⟨isNaN_of_isFinite hx, hbeq, hsign⟩)
  rwa [toRat_zero] at hlt

/-- The magnitude of a number stands for the magnitude of its fraction. -/
theorem toRat_abs (x : Float) : toRat x.abs = |toRat x| := by
  rw [toRat, units_abs, Int.cast_abs, toRat, abs_div, abs_of_pos unitsPerOne_pos]

/-! ## Natural numbers -/

/-- A word turns into the closest number. -/
theorem isClosest_toFloat (n : UInt64) :
    n.toFloat.isFinite = true ∧ IsClosest (toRat n.toFloat) n.toNat := by
  have hround : RoundsTo (Float.Model.UnpackedFloat.ofUInt64 Float.Model.Format.binary64 n)
      ((n.toNat : ℤ) * 2 ^ (0 - leastExponent)) := roundsTo_normalize _ _ _
  obtain ⟨hnan, hunits⟩ := hround
  rw [zero_sub, ← unitsPerOne, Int.cast_natCast] at hunits
  change units n.toFloat = _ at hunits
  -- sixty-four places are far from infinity
  have hsafe : |(n.toNat : ℚ)| ≤ safeBound := by
    have hword : (n.toNat : ℚ) ≤ 2 ^ 64 := by exact_mod_cast n.toNat_lt.le
    have hlarge : (2 : ℚ) ^ 64 ≤ largeBound := pow_le_pow_right₀ one_le_two (by decide)
    rw [Nat.abs_cast]
    exact (hword.trans hlarge).trans largeBound_le_safeBound
  have hfin : n.toFloat.isFinite = true :=
    isFinite_iff.2 ⟨hnan, hunits ▸ abs_roundUnits_lt_infinity hsafe⟩
  exact ⟨hfin, isClosest_of_units hfin hunits⟩

/-- A natural number of fifty-three binary places is not rounded. -/
theorem IsClosest.eq_natCast {p : ℚ} {n : ℕ} (h : IsClosest p n) (hn : n ≤ 2 ^ 53) : p = n := by
  have heq : (n : ℚ) = (n : ℤ) * 2 ^ (0 : ℤ) := by rw [zpow_zero, mul_one, Int.cast_natCast]
  rw [heq] at h ⊢
  exact h.eq (by rw [Nat.abs_cast]; exact_mod_cast hn) (by decide)

/-- Fifty-three binary places are far from infinity. -/
theorem natCast_le_safeBound {n : ℕ} (hn : n ≤ 2 ^ 53) : (n : ℚ) ≤ safeBound := by
  have hlarge : (2 : ℚ) ^ 53 ≤ largeBound := pow_le_pow_right₀ one_le_two (by decide)
  have hle : (n : ℚ) ≤ 2 ^ 53 := by exact_mod_cast hn
  exact (hle.trans hlarge).trans largeBound_le_safeBound

/-- A word of fifty-three binary places is not rounded. -/
theorem toRat_toFloat {n : UInt64} (h : n.toNat ≤ 2 ^ 53) : toRat n.toFloat = n.toNat :=
  (isClosest_toFloat n).2.eq_natCast h

/-- The number one, as it stands in the table of the powers of ten. -/
private theorem toRat_firstPower : toRat (Float.ofBits 0x3FF0000000000000) = 1 := by
  have hunits : units (Float.ofBits 0x3FF0000000000000) = (2 ^ 1074 : ℕ) := by decide +kernel
  have hone : unitsPerOne = 2 ^ 1074 := zpow_natCast 2 1074
  rw [toRat, hunits, hone, Int.cast_natCast, Nat.cast_pow, Nat.cast_ofNat, div_self (by positivity)]

/-- A natural number is read as its word, times ten to the power of zero. -/
theorem toRat_ofNat {n : ℕ} (h : n < 2 ^ 53) :
    (Float.ofNat n).isFinite = true ∧ toRat (Float.ofNat n) = n := by
  have hword : n.toUInt64.toNat = n := by
    rw [Nat.toUInt64, UInt64.toNat_ofNat']
    omega
  -- short numbers are read by way of a word
  have hread : Float.ofNat n = n.toUInt64.toFloat * Float.ofBits 0x3FF0000000000000 :=
    dif_pos ⟨h, Nat.zero_le 22⟩
  -- the product with one is exact
  have hproduct : toRat n.toUInt64.toFloat * toRat (Float.ofBits 0x3FF0000000000000) = n := by
    rw [toRat_firstPower, mul_one, toRat_toFloat (by omega), hword]
  have hsafe : |toRat n.toUInt64.toFloat * toRat (Float.ofBits 0x3FF0000000000000)| ≤
      safeBound := by
    rw [hproduct, Nat.abs_cast]
    exact natCast_le_safeBound h.le
  have hfin := (isClosest_toFloat n.toUInt64).1
  obtain ⟨hmul, -⟩ := toRat_mul hfin (by decide) hsafe
  rw [hread]
  exact ⟨hmul, (hproduct ▸ isClosest_mul hfin (by decide) hmul).eq_natCast h.le⟩

/-- One stands for one. -/
theorem toRat_one : (1 : Float).isFinite = true ∧ toRat 1 = 1 := by
  have h := toRat_ofNat (n := 1) (by decide)
  rwa [Nat.cast_one] at h

/-- Adding numbers whose sum is a natural number of fifty-three binary places loses nothing. -/
theorem toRat_add_natCast {x y : Float} (hx : x.isFinite = true) (hy : y.isFinite = true) {n : ℕ}
    (hsum : toRat x + toRat y = n) (h : n ≤ 2 ^ 53) :
    (x + y).isFinite = true ∧ toRat (x + y) = n := by
  have hsafe : |toRat x + toRat y| ≤ safeBound := by
    rw [hsum, Nat.abs_cast]
    exact natCast_le_safeBound h
  obtain ⟨hfin, -⟩ := toRat_add hx hy hsafe
  exact ⟨hfin, (hsum ▸ isClosest_add hx hy hfin).eq_natCast h⟩

/-! ## Whole parts -/

section WholePart

open Float.Model Float.Model.UnpackedFloat

/-- Truncating a significand with an exponent leaves the whole part of what they stand for. -/
theorem roundToInt_eq (s : Sign) (m : ℕ) (e : ℤ) :
    roundToInt s m e = s.apply ⌊(m : ℚ) * 2 ^ e⌋₊ := by
  have hshift := (represents_exact (m <<< (e - 0).toNat)).shiftRight
    (0 - (e - (e - 0).toNat)).toNat
  -- the shifts to the left and to the right come to the power of two
  have hvalue : ((m <<< (e - 0).toNat : ℕ) : ℚ) / 2 ^ (0 - (e - (e - 0).toNat)).toNat =
      m * 2 ^ e := by
    rw [Nat.shiftLeft_eq, sub_zero, zero_sub, neg_sub]
    push_cast
    rw [mul_div_assoc, ← zpow_natCast, ← zpow_natCast, ← zpow_sub₀ two_ne_zero]
    congr 2
    omega
  rw [hvalue] at hshift
  exact congrArg (fun n : ℕ => s.apply n) hshift.floor_eq.symm

/-- Turning a number into a word leaves its whole part if it fits, and nothing of what is below
    zero. -/
theorem toNat_toUInt64 {x : Float} (hx : x.isFinite = true) (hlt : toRat x < 2 ^ 64) :
    x.toUInt64.toNat = ⌊toRat x⌋₊ := by
  have hfloor : ⌊toRat x⌋₊ < UInt64.size :=
    (Nat.floor_lt' (by decide)).2 (by exact_mod_cast hlt)
  have hwhole : (x.toModel.unpack.toInt 0 (UInt64.size - 1)).toNat = ⌊toRat x⌋₊ := by
    rcases unpack_of_isFinite hx with ⟨s, hu⟩ | ⟨s, m, e, hm, hu⟩
    · rw [toRat_of_unpack_zero hu, hu, Nat.floor_zero]
      rfl
    · rw [toRat_of_unpack_finite hu, hu, toInt, roundToInt_eq]
      -- a number below zero is turned into zero
      cases s with
      | positive => exact Int.toNat_natCast _
      | negative =>
        have hpos : (0 : ℚ) ≤ m * 2 ^ e := by positivity
        rw [signed, Nat.floor_of_nonpos (neg_nonpos.2 hpos)]
        exact Int.toNat_of_nonpos (neg_nonpos.2 (Int.natCast_nonneg _))
  show (UInt64.ofNatClamp (x.toModel.unpack.toInt 0 (UInt64.size - 1)).toNat).toNat = _
  rw [hwhole, UInt64.ofNatClamp, dif_pos hfloor]
  rfl

end WholePart

/-- The whole part of a number that has a place for its fraction is a number again. -/
theorem toRat_toFloat_toUInt64 {x : Float} (hx : x.isFinite = true) (hlt : toRat x ≤ 2 ^ 53) :
    x.toUInt64.toFloat.isFinite = true ∧ toRat x.toUInt64.toFloat = ⌊toRat x⌋₊ := by
  have hword := toNat_toUInt64 hx (hlt.trans_lt (by norm_num))
  have hfloor : ⌊toRat x⌋₊ ≤ 2 ^ 53 := Nat.floor_le_of_le (by exact_mod_cast hlt)
  exact ⟨(isClosest_toFloat _).1, hword ▸ toRat_toFloat (hword.trans_le hfloor)⟩

/-! ## Fractions -/

/-- The fraction of a number has no more binary places than the number. -/
theorem exists_fraction {x : Float} (hx : x.isFinite = true) (hnonneg : 0 ≤ toRat x) :
    ∃ m e : ℤ, |m| ≤ 2 ^ 53 ∧ leastExponent ≤ e ∧ toRat x - ⌊toRat x⌋₊ = m * 2 ^ e := by
  obtain ⟨m, e, hm, he, -, hmx⟩ := exists_significand hx
  have hpos : (0 : ℚ) < 2 ^ e := zpow_pos two_pos e
  rw [hmx] at hnonneg ⊢
  lift m to ℕ using Int.cast_nonneg_iff.1 (nonneg_of_mul_nonneg_left hnonneg hpos)
  rw [Nat.abs_cast] at hm
  rcases lt_or_ge e 0 with hneg | hwhole
  · -- the places behind the point are the last ones of the significand
    obtain ⟨k, rfl⟩ : ∃ k : ℕ, e = -k := ⟨(-e).toNat, by omega⟩
    have hdiv : ((m : ℤ) : ℚ) * 2 ^ (-k : ℤ) = (m : ℚ) / (2 ^ k : ℕ) := by
      push_cast
      rw [zpow_neg, zpow_natCast, div_eq_mul_inv]
    have hle : m % 2 ^ k ≤ m := Nat.mod_le _ _
    refine ⟨(m % 2 ^ k : ℕ), -k, by rw [Nat.abs_cast]; omega, he, ?_⟩
    have hsplit : (m : ℚ) = (2 ^ k : ℕ) * (m / 2 ^ k : ℕ) + (m % 2 ^ k : ℕ) := by
      exact_mod_cast (Nat.div_add_mod m (2 ^ k)).symm
    have hcast : ((2 ^ k : ℕ) : ℚ) = 2 ^ k := by push_cast; rfl
    have htwo : ((2 ^ k : ℕ) : ℚ) ≠ 0 := by positivity
    rw [hdiv, Nat.floor_div_eq_div, zpow_neg, zpow_natCast, ← hcast, ← div_eq_mul_inv,
      Int.cast_natCast, div_sub' htwo, ← eq_sub_of_add_eq' hsplit.symm]
  · -- there are none
    obtain ⟨k, rfl⟩ := Int.eq_ofNat_of_zero_le hwhole
    refine ⟨0, 0, by decide, by decide, ?_⟩
    have hnat : ((m : ℤ) : ℚ) * 2 ^ (k : ℤ) = (m * 2 ^ k : ℕ) := by
      push_cast
      rw [zpow_natCast]
    rw [hnat, Nat.floor_natCast]
    simp

/-- Subtracting the whole part leaves the fraction. -/
theorem toRat_sub_floor {x w : Float} (hx : x.isFinite = true) (hnonneg : 0 ≤ toRat x)
    (hw : w.isFinite = true) (hfloor : toRat w = ⌊toRat x⌋₊) :
    (x - w).isFinite = true ∧ toRat (x - w) = toRat x - ⌊toRat x⌋₊ := by
  have hlow := Nat.floor_le hnonneg
  have hhigh := Nat.lt_floor_add_one (toRat x)
  have hsafe : |toRat x - toRat w| ≤ safeBound := by
    have hone := le_largeBound.trans largeBound_le_safeBound
    rw [hfloor, abs_of_nonneg (sub_nonneg.2 hlow)]
    linarith
  obtain ⟨hfin, -⟩ := toRat_sub hx hw hsafe
  obtain ⟨m, e, hm, he, hme⟩ := exists_fraction hx hnonneg
  -- the fraction has few enough places, so the difference is exact
  have hclose := isClosest_sub hx hw hfin
  rw [hfloor, hme] at hclose
  exact ⟨hfin, (hclose.eq hm he).trans hme.symm⟩

/-! ## Rounding to whole numbers -/

/-- One half stands for one half. -/
theorem toRat_half : (0.5 : Float).isFinite = true ∧ toRat 0.5 = 1 / 2 := by
  refine ⟨by decide, ?_⟩
  rw [toRat, units_half, div_right_comm, div_self unitsPerOne_pos.ne']

/-- Rounding half up gives the whole part of what is a half more. -/
theorem toRat_roundHalfUp {x : Float} (hx : x.isFinite = true) (hnonneg : 0 ≤ toRat x)
    (hlt : toRat x < 2 ^ 52) :
    (roundHalfUp x).isFinite = true ∧ toRat (roundHalfUp x) = ⌊toRat x + 1 / 2⌋₊ := by
  obtain ⟨hwhole, hfloor⟩ := toRat_toFloat_toUInt64 hx (by linarith)
  obtain ⟨hsub, hfraction⟩ := toRat_sub_floor hx hnonneg hwhole hfloor
  have hlow := Nat.floor_le hnonneg
  have hhigh := Nat.lt_floor_add_one (toRat x)
  have hplus : 0 ≤ toRat x + 1 / 2 := by linarith
  simp only [roundHalfUp, le_iff_toRat toRat_half.1 hsub, toRat_half.2, hfraction]
  split_ifs with hhalf
  · -- a half or more: one is added, and the sum is a whole number of fifty-three places
    have hsum : toRat x.toUInt64.toFloat + toRat 1 = (⌊toRat x⌋₊ + 1 : ℕ) := by
      rw [hfloor, toRat_one.2, Nat.cast_add, Nat.cast_one]
    have hplaces : ⌊toRat x⌋₊ + 1 ≤ 2 ^ 53 := by
      have : ⌊toRat x⌋₊ < 2 ^ 52 := (Nat.floor_lt hnonneg).2 (by exact_mod_cast hlt)
      omega
    obtain ⟨hfin, hvalue⟩ := toRat_add_natCast hwhole toRat_one.1 hsum hplaces
    refine ⟨hfin, hvalue.trans (congrArg Nat.cast ?_)⟩
    refine ((Nat.floor_eq_iff hplus).2 ⟨?_, ?_⟩).symm <;> push_cast <;> linarith
  · -- less than a half: the fraction is dropped
    refine ⟨hwhole, hfloor.trans (congrArg Nat.cast ?_)⟩
    refine ((Nat.floor_eq_iff hplus).2 ⟨?_, ?_⟩).symm <;> linarith

/-- From this number on there are no places for a fraction. -/
theorem toRat_wholeFrom : wholeFrom.isFinite = true ∧ toRat wholeFrom = 2 ^ 52 := by
  have h := toRat_ofNat (n := 4503599627370496) (by decide)
  exact ⟨h.1, h.2.trans (by norm_num)⟩

/-- A magnitude is finite when the number is. -/
theorem isFinite_abs (x : Float) : x.abs.isFinite = true ↔ x.isFinite = true := by
  rw [isFinite_iff, isFinite_iff, isNaN_abs, units_abs, abs_abs]

/-- The numbers with a fraction to round are those below `2 ^ 52`. -/
theorem abs_lt_wholeFrom_iff {x : Float} :
    x.abs < wholeFrom ↔ x.isFinite = true ∧ |toRat x| < 2 ^ 52 := by
  have hlarge := (isFinite_iff.1 toRat_wholeFrom.1).2
  have hcompare (hx : x.isFinite = true) : x.abs < wholeFrom ↔ |toRat x| < 2 ^ 52 := by
    rw [lt_iff_toRat ((isFinite_abs x).2 hx) toRat_wholeFrom.1, toRat_abs, toRat_wholeFrom.2]
  -- an infinity and NaN are not below any number
  constructor
  · intro h
    obtain ⟨⟨hnan, -⟩, hlt⟩ := lt_iff.1 h
    rw [isNaN_abs] at hnan
    rw [units_abs] at hlt
    have hx := isFinite_iff.2 ⟨hnan, (hlt.trans_le (le_abs_self _)).trans hlarge⟩
    exact ⟨hx, (hcompare hx).1 h⟩
  · intro h
    exact (hcompare h.1).2 h.2

/-- All others are kept, infinities and NaN included. -/
theorem roundHalfAway_eq_self {x : Float} (h : x.isFinite = true → 2 ^ 52 ≤ |toRat x|) :
    roundHalfAway x = x :=
  if_neg fun hlt =>
    have ⟨hx, hsmall⟩ := abs_lt_wholeFrom_iff.1 hlt
    absurd (h hx) (not_le.2 hsmall)

/-- A half goes up, if the number is not negative. -/
theorem toRat_roundHalfAway {x : Float} (hx : x.isFinite = true) (hnonneg : 0 ≤ toRat x)
    (hlt : toRat x < 2 ^ 52) :
    (roundHalfAway x).isFinite = true ∧ toRat (roundHalfAway x) = ⌊toRat x + 1 / 2⌋₊ := by
  have hself : |toRat x| = toRat x := abs_of_nonneg hnonneg
  have hmagnitude : toRat x.abs = toRat x := (toRat_abs x).trans hself
  obtain ⟨hup, hvalue⟩ := toRat_roundHalfUp ((isFinite_abs x).2 hx) (hmagnitude ▸ hnonneg)
    (hmagnitude ▸ hlt)
  rw [hmagnitude] at hvalue
  have hunfold : roundHalfAway x = if signBit x then -roundHalfUp x.abs else roundHalfUp x.abs :=
    if_pos (abs_lt_wholeFrom_iff.2 ⟨hx, hself.trans_lt hlt⟩)
  rw [hunfold]
  split_ifs with hsign
  · -- only a zero has a sign
    have hzero : toRat x = 0 := by
      by_contra hne
      exact absurd hnonneg (not_le.2 (toRat_neg_of_signBit hx hne hsign))
    rw [isFinite_neg_self, toRat_neg, hvalue, hzero]
    refine ⟨hup, ?_⟩
    norm_num
  · exact ⟨hup, hvalue⟩

/-- Numbers below zero are rounded like their magnitudes. -/
theorem roundHalfAway_neg (x : Float) : roundHalfAway (-x) = -roundHalfAway x := by
  unfold roundHalfAway
  rw [Binary64.abs_neg]
  -- the magnitude is the same and the sign turned over, or nothing is rounded
  split_ifs with hlt hneg hsign hsign
  · rw [signBit_neg (isNaN_of_isFinite (abs_lt_wholeFrom_iff.1 hlt).1), hsign] at hneg
    cases hneg
  · rfl
  · exact (Binary64.neg_neg _).symm
  · rw [signBit_neg (isNaN_of_isFinite (abs_lt_wholeFrom_iff.1 hlt).1)] at hneg
    simp_all
  · rfl

/-- Rounding up to a natural number, for numbers of fifty-three binary places. -/
theorem ceilToNat_eq {x : Float} (hx : x.isFinite = true) (hle : toRat x ≤ 2 ^ 53) :
    ceilToNat x = ⌈toRat x⌉₊ := by
  have hword := toNat_toUInt64 hx (hle.trans_lt (by norm_num))
  obtain ⟨hfin, hfloor⟩ := toRat_toFloat_toUInt64 hx hle
  have hplaces : ⌊toRat x⌋₊ ≤ 2 ^ 53 := Nat.floor_le_of_le (by exact_mod_cast hle)
  have hmax : ⌊toRat x⌋₊ + 1 ≤ maxWord := by
    simp only [maxWord, Nat.pow_eq]
    omega
  rw [ceilToNat, hword]
  simp only [lt_iff_toRat hfin hx, hfloor]
  -- the whole part is one short, unless there is no fraction
  split_ifs with hlt
  · rw [min_eq_left hmax]
    refine (Nat.ceil_eq_iff (Nat.succ_ne_zero _)).2 ⟨hlt, ?_⟩ |>.symm
    push_cast
    exact (Nat.lt_floor_add_one _).le
  · refine le_antisymm (Nat.floor_le_ceil _) (Nat.ceil_le.2 (not_lt.1 hlt))

end ScalarRoots.Binary64
