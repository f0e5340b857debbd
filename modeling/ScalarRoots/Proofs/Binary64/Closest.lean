import ScalarRoots.Proofs.Binary64.Range

/-!
# The closest number

A finite result of an operation is at least as close to the exact one as every number of
fifty-three binary places.  This says all there is to know about the size of a rounding error:
the numbers of fifty-three places around the exact result can be written down, and the result is
not farther away than any of them.

## Key results

- `exists_significand`: finite numbers have fifty-three binary places
- `IsClosest`: the property, and what follows from it
- `isClosest_sub` / `isClosest_mul` / `isClosest_div`: the operations
-/

namespace ScalarRoots.Binary64

/-! ## Rounded magnitudes -/

/-- No whole number is closer. -/
theorem abs_nearestEven_sub_le_abs {q : ℚ} (hq : 0 ≤ q) (n : ℕ) :
    |(nearestEven q : ℚ) - q| ≤ |(n : ℚ) - q| := by
  by_cases hn : nearestEven q = n
  · rw [hn]
  · -- another whole number is one away from this one, or more
    have hone : (1 : ℚ) ≤ |(nearestEven q : ℚ) - n| := by
      have hint : (nearestEven q : ℤ) - n ≠ 0 := by omega
      exact_mod_cast Int.one_le_abs hint
    have htriangle := abs_sub_le (nearestEven q : ℚ) q n
    have hhalf := abs_nearestEven_sub_le hq
    rw [abs_sub_comm q] at htriangle
    linarith

/-- No magnitude of fifty-three binary places is closer. -/
theorem abs_roundMagnitude_sub_le_abs {q : ℚ} (hq : 0 ≤ q) {m : ℕ} (hm : m ≤ 2 ^ 53) (k : ℕ) :
    |(roundMagnitude q : ℚ) - q| ≤ |(m : ℚ) * 2 ^ k - q| := by
  -- `n` ulps are not closer
  have hulps (n : ℕ) : |(roundMagnitude q : ℚ) - q| ≤ |(n : ℚ) * 2 ^ ulpExponent q - q| := by
    have hpos : (0 : ℚ) < 2 ^ ulpExponent q := by positivity
    have hnear := abs_nearestEven_sub_le_abs (div_nonneg hq hpos.le) n
    have hscale (z : ℚ) : |z * 2 ^ ulpExponent q - q| =
        |z - q / 2 ^ ulpExponent q| * 2 ^ ulpExponent q := by
      rw [← abs_of_pos hpos, ← abs_mul, sub_mul, abs_of_pos hpos, div_mul_cancel₀ _ hpos.ne']
    rw [roundMagnitude, Nat.cast_mul, Nat.cast_pow, Nat.cast_ofNat, hscale, hscale]
    exact mul_le_mul_of_nonneg_right hnear hpos.le
  -- the other magnitude has places at least as coarse as the ulp, or finer ones
  rcases le_or_gt (ulpExponent q) k with hle | hlt
  · -- a multiple of the ulp
    have hcast : (m : ℚ) * 2 ^ k = (m * 2 ^ (k - ulpExponent q) : ℕ) * 2 ^ ulpExponent q := by
      push_cast
      rw [mul_assoc, ← pow_add, Nat.sub_add_cancel hle]
    rw [hcast]
    exact hulps _
  · -- below the power of two that `q` is not below, and that is a multiple of the ulp
    have hpos : 0 < q := by
      rcases hq.eq_or_lt with rfl | hpos
      · simp [ulpExponent] at hlt
      · exact hpos
    have hlead := two_pow_ulpExponent_le hpos (Nat.zero_lt_of_lt hlt)
    have hbelow : (m : ℚ) * 2 ^ k ≤ 2 ^ 52 * 2 ^ ulpExponent q := by
      have hnat : m * 2 ^ k ≤ 2 ^ 52 * 2 ^ ulpExponent q :=
        calc m * 2 ^ k ≤ 2 ^ 53 * 2 ^ k := Nat.mul_le_mul_right _ hm
          _ = 2 ^ 52 * 2 ^ (k + 1) := by ring
          _ ≤ 2 ^ 52 * 2 ^ ulpExponent q :=
            Nat.mul_le_mul_left _ (Nat.pow_le_pow_right (by decide) hlt)
      exact_mod_cast hnat
    have hfirst := hulps (2 ^ 52)
    rw [pow_add] at hlead
    rw [Nat.cast_pow, Nat.cast_ofNat, abs_of_nonpos (sub_nonpos.2 hlead)] at hfirst
    rw [abs_of_nonpos (sub_nonpos.2 (hbelow.trans hlead))]
    linarith

/-! ## Significands -/

section Significands

open Float.Model Float.Model.UnpackedFloat

/-- A finite number is unpacked to a zero, or to a significand and an exponent. -/
theorem unpack_of_isFinite {x : Float} (hx : x.isFinite = true) :
    (∃ s, x.toModel.unpack = .zero s) ∨ ∃ s m e hm, x.toModel.unpack = .finite s m e hm := by
  change x.toModel.unpack.isFinite = true at hx
  cases hu : x.toModel.unpack with
  | notANumber => exact nomatch hu ▸ hx
  | infinity s => exact nomatch hu ▸ hx
  | zero s => exact .inl ⟨s, rfl⟩
  | finite s m e hm => exact .inr ⟨s, m, e, hm, rfl⟩

/-- A zero stands for zero. -/
theorem toRat_of_unpack_zero {x : Float} {s : Sign} (hu : x.toModel.unpack = .zero s) :
    toRat x = 0 := by
  rw [toRat_eq_zero_iff, units, hu, unitsOf]

/-- A significand and an exponent stand for their product. -/
theorem toRat_of_unpack_finite {x : Float} {s : Sign} {m : ℕ} {e : ℤ} {hm : 0 < m}
    (hu : x.toModel.unpack = .finite s m e hm) : toRat x = signed s (m * 2 ^ e) := by
  obtain ⟨-, hlow, -⟩ : IsCanonical (.finite s m e hm) := hu ▸ isCanonical_unpack x.toModel
  have hscale : (2 : ℚ) ^ (e - leastExponent) / unitsPerOne = 2 ^ e := by
    rw [unitsPerOne, ← zpow_sub₀ two_ne_zero, sub_neg_eq_add, sub_add_cancel]
  rw [toRat, units, hu, cast_unitsOf_finite s hm hlow, ← hscale]
  cases s <;> simp only [signed, neg_div, mul_div_assoc]

/-- A finite number is a significand of fifty-three binary places times a power of two, and all
    of the places are used unless the exponent is the least one. -/
theorem exists_significand {x : Float} (hx : x.isFinite = true) :
    ∃ (m : ℤ) (e : ℤ), |m| < 2 ^ 53 ∧ leastExponent ≤ e ∧ (2 ^ 52 ≤ |m| ∨ e = leastExponent) ∧
      toRat x = m * 2 ^ e := by
  rcases unpack_of_isFinite hx with ⟨s, hu⟩ | ⟨s, m, e, hm, hu⟩
  · exact ⟨0, leastExponent, by decide, le_rfl, .inr rfl, by simp [toRat_of_unpack_zero hu]⟩
  -- canonical form says that all places are used
  · obtain ⟨hbits, hlow, -, hlead⟩ : IsCanonical (.finite s m e hm) :=
      hu ▸ isCanonical_unpack x.toModel
    have habs : |s.apply m| = m := abs_apply s m
    refine ⟨s.apply m, e, by rw [habs]; exact_mod_cast hbits, hlow, ?_, ?_⟩
    · rw [habs]
      exact hlead.imp_left fun h => by exact_mod_cast h
    · rw [toRat_of_unpack_finite hu]
      cases s <;> simp [signed, Sign.apply]

end Significands

/-! ## Closeness -/

/-- No number of fifty-three binary places is closer to `q` than `p` is. -/
def IsClosest (p q : ℚ) : Prop :=
  ∀ m e : ℤ, |m| ≤ 2 ^ 53 → leastExponent ≤ e → |p - q| ≤ |m * 2 ^ e - q|

namespace IsClosest

variable {p q : ℚ}

/-- A number is closest to itself. -/
theorem refl (p : ℚ) : IsClosest p p := by
  intro m e _ _
  rw [sub_self, abs_zero]
  exact abs_nonneg _

/-- What has fifty-three places itself is not rounded. -/
theorem eq {m e : ℤ} (h : IsClosest p (m * 2 ^ e)) (hm : |m| ≤ 2 ^ 53) (he : leastExponent ≤ e) :
    p = m * 2 ^ e := by
  have hle := h m e hm he
  rw [sub_self, abs_zero] at hle
  exact sub_eq_zero.1 (abs_nonpos_iff.1 hle)

/-- What is not negative stays so. -/
theorem nonneg (h : IsClosest p q) (hq : 0 ≤ q) : 0 ≤ p := by
  have hzero := h 0 0 (by decide) (by decide)
  rw [Int.cast_zero, zero_mul, zero_sub, abs_neg, abs_of_nonneg hq] at hzero
  linarith [(abs_le.1 hzero).1]

/-- In particular, no finite number is closer. -/
theorem abs_sub_le_abs (h : IsClosest p q) {x : Float} (hx : x.isFinite = true) :
    |p - q| ≤ |toRat x - q| := by
  obtain ⟨m, e, hm, he, -, hmx⟩ := exists_significand hx
  rw [hmx]
  exact h m e hm.le he

/-- The closest numbers are in the order of what they are closest to. -/
theorem mono {x y : Float} (hx : x.isFinite = true) (hy : y.isFinite = true)
    (hp : IsClosest (toRat x) p) (hq : IsClosest (toRat y) q) (h : p < q) :
    toRat x ≤ toRat y := by
  by_contra hlt
  -- each of the two is not farther from its own number than the other one is
  have hpy := hp.abs_sub_le_abs hy
  have hqx := hq.abs_sub_le_abs hx
  have hgap : 0 < toRat x - toRat y := sub_pos.2 (not_le.1 hlt)
  -- so `p` is not below the point halfway between them, and `q` is not above it
  have hbelow : 0 ≤ (toRat x - toRat y) * (2 * p - (toRat x + toRat y)) := by
    linarith [sq_le_sq.2 hpy]
  have habove : 0 ≤ (toRat x - toRat y) * (toRat x + toRat y - 2 * q) := by
    linarith [sq_le_sq.2 hqx]
  linarith [nonneg_of_mul_nonneg_right hbelow hgap, nonneg_of_mul_nonneg_right habove hgap]

/-- The error is at most half of the weight of the last place, for a weight with which
    fifty-three places are enough. -/
theorem abs_sub_le_half (h : IsClosest p q) {e : ℤ} (he : leastExponent ≤ e)
    (hq : |q| ≤ 2 ^ 53 * 2 ^ e) : |p - q| ≤ 2 ^ e / 2 := by
  have hpos : (0 : ℚ) < 2 ^ e := zpow_pos two_pos e
  obtain ⟨hlow, hhigh⟩ := abs_le.1 hq
  -- the multiple of the last place that is nearest to `q` has few enough places
  have hbits : |round (q / 2 ^ e)| ≤ 2 ^ 53 := by
    rw [round_eq, abs_le]
    constructor
    · refine Int.le_floor.2 ?_
      have := (le_div_iff₀ hpos).2 ((neg_mul _ _).trans_le hlow)
      push_cast
      linarith
    · refine Int.lt_add_one_iff.1 (Int.floor_lt.2 ?_)
      have := (div_le_iff₀ hpos).2 hhigh
      push_cast
      linarith
  calc |p - q| ≤ |round (q / 2 ^ e) * 2 ^ e - q| := h _ e hbits he
    _ = |q / 2 ^ e - round (q / 2 ^ e)| * 2 ^ e := by
      rw [abs_sub_comm, ← abs_of_pos hpos, ← abs_mul, sub_mul, abs_of_pos hpos,
        div_mul_cancel₀ _ hpos.ne']
    _ ≤ 1 / 2 * 2 ^ e := mul_le_mul_of_nonneg_right (abs_sub_round _) hpos.le
    _ = 2 ^ e / 2 := by ring

/-- The error stays half of the weight of the last place a little beyond the power of two where
    fifty-three places end. -/
theorem abs_sub_le_half_of_le_add (h : IsClosest p q) {e : ℤ}
    (he : leastExponent ≤ e) (hq : |q| ≤ 2 ^ 53 * 2 ^ e + 2 ^ e / 2) : |p - q| ≤ 2 ^ e / 2 := by
  by_cases hin : |q| ≤ 2 ^ 53 * 2 ^ e
  · exact h.abs_sub_le_half he hin
  -- beyond the power of two, that power itself is close enough
  · rcases abs_cases q with ⟨habs, -⟩ | ⟨habs, -⟩
    · refine (h (2 ^ 53) e (by decide) he).trans ?_
      rw [abs_sub_comm, abs_le]
      push_cast
      constructor <;> linarith
    · refine (h (-2 ^ 53) e (by decide) he).trans ?_
      rw [abs_le]
      push_cast
      constructor <;> linarith

/-- It is at most one part in `2 ^ 53`, unless the exact result is as small as the subnormal
    numbers are. -/
theorem abs_sub_le_div (h : IsClosest p q) (hq : 2 ^ (-1022 : ℤ) ≤ |q|) :
    |p - q| ≤ |q| / 2 ^ 53 := by
  have hpos : 0 < |q| := (zpow_pos two_pos _).trans_le hq
  have hlog : -1022 ≤ Int.log 2 |q| := (Int.zpow_le_iff_le_log (by decide) hpos).1 hq
  have hself : (2 : ℚ) ^ Int.log 2 |q| ≤ |q| := Int.zpow_log_le_self (by decide : 1 < 2) hpos
  have hlt : |q| < (2 : ℚ) ^ (Int.log 2 |q| + 1) :=
    Int.lt_zpow_succ_log_self (by decide : 1 < 2) |q|
  have hsplit : (2 : ℚ) ^ (Int.log 2 |q| + 1) = 2 ^ 53 * 2 ^ (Int.log 2 |q| - 52) := by
    rw [← zpow_natCast, ← zpow_add₀ two_ne_zero]
    congr 1
    push_cast
    ring
  -- the last place is chosen so that fifty-three of them reach just beyond `q`
  have herror := h.abs_sub_le_half (e := Int.log 2 |q| - 52)
    (by simp only [leastExponent]; omega) (hlt.le.trans_eq hsplit)
  rw [zpow_add_one₀ two_ne_zero] at hsplit
  rw [le_div_iff₀ (by positivity)]
  linarith

/-- If there is a number of fifty-three places from `b` to `c`, what is at most halfway between
    them is not rounded up beyond `c`. -/
theorem le_of_between (h : IsClosest p q) {m e : ℤ} (hm : |m| ≤ 2 ^ 53) (he : leastExponent ≤ e)
    {b c : ℚ} (hb : b ≤ m * 2 ^ e) (hc : m * 2 ^ e ≤ c) (hq : 2 * q ≤ b + c) : p ≤ c := by
  have hle := h m e hm he
  have hself := le_abs_self (p - q)
  -- the number in between is above `q` or below it
  rcases abs_cases ((m : ℚ) * 2 ^ e - q) with ⟨habs, -⟩ | ⟨habs, -⟩ <;> linarith

/-- Negation keeps the distance. -/
theorem neg (h : IsClosest p q) : IsClosest (-p) (-q) := by
  intro m e hm he
  have hle := h (-m) e (by rwa [abs_neg]) he
  rwa [Int.cast_neg, neg_mul, ← abs_neg, neg_sub', ← abs_neg (-_ - q), neg_sub', neg_neg] at hle

/-- The same downwards. -/
theorem ge_of_between (h : IsClosest p q) {m e : ℤ} (hm : |m| ≤ 2 ^ 53) (he : leastExponent ≤ e)
    {b c : ℚ} (hb : m * 2 ^ e ≤ b) (hc : c ≤ m * 2 ^ e) (hq : b + c ≤ 2 * q) : c ≤ p := by
  refine neg_le_neg_iff.1 (h.neg.le_of_between (m := -m) (b := -b) (by rwa [abs_neg]) he ?_ ?_ ?_)
  · rw [Int.cast_neg, neg_mul]
    exact neg_le_neg hb
  · rw [Int.cast_neg, neg_mul]
    exact neg_le_neg hc
  · linarith

end IsClosest

/-! ## Operations -/

/-- A finite result is closest to what it is rounded from. -/
theorem isClosest_of_units {z : Float} {q : ℚ} (hz : z.isFinite = true)
    (hunits : units z = roundUnits (q * unitsPerOne)) : IsClosest (toRat z) q := by
  intro m e hm he
  have hpos := unitsPerOne_pos
  have herror := abs_roundUnits_sub (hunits ▸ (isFinite_iff.1 hz).2)
  have hclose := abs_roundMagnitude_sub_le_abs (abs_nonneg (q * unitsPerOne))
    (m := m.natAbs) (by exact_mod_cast (Int.abs_eq_natAbs m).symm.trans_le hm)
    (e - leastExponent).toNat
  -- the other number, counted in units
  have hcast : |(m : ℚ) * 2 ^ e * unitsPerOne| = m.natAbs * 2 ^ (e - leastExponent).toNat := by
    have hexp : (2 : ℚ) ^ e * unitsPerOne = 2 ^ (e - leastExponent).toNat := by
      rw [← zpow_natCast, Int.toNat_of_nonneg (Int.sub_nonneg_of_le he), unitsPerOne,
        ← zpow_add₀ two_ne_zero, ← sub_eq_add_neg]
    rw [mul_assoc, hexp, abs_mul, abs_of_pos (by positivity : (0 : ℚ) < 2 ^ _),
      Nat.cast_natAbs, Int.cast_abs]
  refine le_of_mul_le_mul_right ?_ hpos
  calc |toRat z - q| * unitsPerOne = |(roundUnits (q * unitsPerOne) : ℚ) - q * unitsPerOne| := by
        rw [← hunits, units_eq_toRat_mul, ← sub_mul, abs_mul, abs_of_pos hpos]
    _ ≤ abs (|(m : ℚ) * 2 ^ e * unitsPerOne| - |q * unitsPerOne|) := by
        rw [herror, hcast]
        exact hclose
    _ ≤ |(m : ℚ) * 2 ^ e * unitsPerOne - q * unitsPerOne| := abs_abs_sub_abs_le _ _
    _ = |(m : ℚ) * 2 ^ e - q| * unitsPerOne := by rw [← sub_mul, abs_mul, abs_of_pos hpos]

section Operations

variable {x y : Float} (hx : x.isFinite = true) (hy : y.isFinite = true)

include hx hy

/-- A finite sum is the closest number to the exact sum. -/
theorem isClosest_add (hfin : (x + y).isFinite = true) :
    IsClosest (toRat (x + y)) (toRat x + toRat y) :=
  isClosest_of_units hfin (by
    rw [(units_add hx hy).2, add_mul, ← units_eq_toRat_mul, ← units_eq_toRat_mul])

/-- A finite difference is the closest number to the exact difference. -/
theorem isClosest_sub (hfin : (x - y).isFinite = true) :
    IsClosest (toRat (x - y)) (toRat x - toRat y) :=
  isClosest_of_units hfin (units_sub_eq_roundUnits hx hy)

/-- A finite product is the closest number to the exact product. -/
theorem isClosest_mul (hfin : (x * y).isFinite = true) :
    IsClosest (toRat (x * y)) (toRat x * toRat y) :=
  isClosest_of_units hfin (units_mul_eq_roundUnits hx hy)

/-- A finite quotient is the closest number to the exact quotient. -/
theorem isClosest_div (hne : toRat y ≠ 0) (hfin : (x / y).isFinite = true) :
    IsClosest (toRat (x / y)) (toRat x / toRat y) :=
  isClosest_of_units hfin (units_div_eq_roundUnits hx hy hne)

end Operations

end ScalarRoots.Binary64
