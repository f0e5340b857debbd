import ScalarRoots.Proofs.Binary64.Logarithm

/-!
# The logarithm is monotone

That a logarithm is off by less than the distance of numbers does not yet mean that it is
monotone: of two numbers that are next to each other the larger one could have the smaller
logarithm.  For the logarithm that is computed this does not happen.  Of two mantissas the larger
one has the larger bits, as every square is truncated in the same way, and rounding keeps the
order.

## Key results

- `log2Bits_le_log2Bits`: the bits of a larger mantissa
- `log2Fixed_le_log2Fixed`: the logarithm before it is rounded
- `monotone_log2`: the logarithm keeps the order of numbers
-/

namespace ScalarRoots.Binary64

/-! ## Bits -/

/-- The bits are appended to those in front of them. -/
theorem log2Bits_bounds {mantissa : ℕ} (h : IsMantissa mantissa) (count bits : ℕ) :
    bits * 2 ^ count ≤ log2Bits count mantissa bits ∧
      log2Bits count mantissa bits < (bits + 1) * 2 ^ count := by
  obtain ⟨r, hr, hle, -⟩ := exists_log2Bits h count bits
  have hlt : r < 2 ^ count := by
    have hreal : (r : ℝ) < 2 ^ count :=
      hle.trans_lt (mul_lt_of_lt_one_right (by positivity) h.log_lt_one)
    exact_mod_cast hreal
  rw [hr, add_one_mul]
  constructor <;> omega

/-- A larger mantissa has larger bits. -/
theorem log2Bits_le_log2Bits {a b : ℕ} (ha : IsMantissa a) (hb : IsMantissa b) (hab : a ≤ b)
    (count bits : ℕ) : log2Bits count a bits ≤ log2Bits count b bits := by
  induction count generalizing a b bits with
  | zero => exact le_rfl
  | succ count ih =>
    obtain ⟨u, a', hbits, ha', hadef⟩ := exists_log2Bits_succ ha count bits
    obtain ⟨v, b', hbits', hb', hbdef⟩ := exists_log2Bits_succ hb count bits
    have hsquare : a * a ≤ b * b := Nat.mul_le_mul hab hab
    rw [hbits, hbits']
    rcases lt_trichotomy u v with hlt | heq | hgt
    · -- the first bit that differs decides
      calc log2Bits count a' (2 * bits + u) ≤ (2 * bits + u + 1) * 2 ^ count :=
            (log2Bits_bounds ha' count _).2.le
        _ ≤ (2 * bits + v) * 2 ^ count := Nat.mul_le_mul_right _ (by omega)
        _ ≤ log2Bits count b' (2 * bits + v) := (log2Bits_bounds hb' count _).1
    · subst heq
      have hle : a' ≤ b' := hadef ▸ hbdef ▸ Nat.div_le_div_right hsquare
      exact ih ha' hb' hle _
    · -- the square of the larger mantissa would be the smaller one
      have hlow : 2 ^ workingBits * 2 ^ (workingBits + u) ≤ a * a :=
        (Nat.le_div_iff_mul_le (Nat.two_pow_pos _)).1 (hadef ▸ ha'.1)
      have hhigh : b * b < 2 ^ (workingBits + 1) * 2 ^ (workingBits + v) :=
        (Nat.div_lt_iff_lt_mul (Nat.two_pow_pos _)).1 (hbdef ▸ hb'.2)
      have hpow : 2 ^ (workingBits + 1) * 2 ^ (workingBits + v) ≤
          2 ^ workingBits * 2 ^ (workingBits + u) := by
        rw [← pow_add, ← pow_add]
        exact Nat.pow_le_pow_right two_pos (by omega)
      omega

/-! ## Magnitudes -/

section Fixed

variable {m : Magnitude} (hpos : 0 < m.significand) (hlt : m.significand < 2 ^ 53)

include hpos hlt

/-- The logarithm lies between its whole part and the next whole number. -/
theorem log2Fixed_between : m.lead * 2 ^ fractionLength ≤ log2Fixed m ∧
    log2Fixed m < (m.lead + 1) * 2 ^ fractionLength := by
  obtain ⟨-, hbits⟩ := log2Bits_bounds (isMantissa_mantissa hpos hlt) fractionLength 0
  rw [zero_add, one_mul] at hbits
  rw [log2Fixed_eq, add_one_mul]
  have hcast : (log2Bits fractionLength m.mantissa 0 : ℤ) < 2 ^ fractionLength := by
    exact_mod_cast hbits
  constructor <;> omega

end Fixed

/-- A larger magnitude has a larger logarithm before it is rounded. -/
theorem log2Fixed_le_log2Fixed {m n : Magnitude} (hm : 0 < m.significand)
    (hm' : m.significand < 2 ^ 53) (hn : 0 < n.significand) (hn' : n.significand < 2 ^ 53)
    (h : m.toRat ≤ n.toRat) : log2Fixed m ≤ log2Fixed n := by
  rcases lt_trichotomy m.lead n.lead with hlt | heq | hgt
  · calc log2Fixed m ≤ (m.lead + 1) * 2 ^ fractionLength := (log2Fixed_between hm hm').2.le
      _ ≤ n.lead * 2 ^ fractionLength := Int.mul_le_mul_of_nonneg_right hlt (by positivity)
      _ ≤ log2Fixed n := (log2Fixed_between hn hn').1
  · have hle : m.mantissa ≤ n.mantissa := by
      rw [toRat_eq_mantissa_mul hm hm', toRat_eq_mantissa_mul hn hn', heq] at h
      have hdiv := le_of_mul_le_mul_right h (by positivity)
      rw [div_le_div_iff_of_pos_right (by positivity)] at hdiv
      exact_mod_cast hdiv
    have hbits := log2Bits_le_log2Bits (isMantissa_mantissa hm hm') (isMantissa_mantissa hn hn')
      hle fractionLength 0
    rw [log2Fixed_eq, log2Fixed_eq, heq]
    omega
  · -- the larger whole part belongs to the larger number
    have hlt : n.toRat < m.toRat :=
      calc n.toRat < 2 ^ (n.lead + 1) := (toRat_between hn hn').2
        _ ≤ 2 ^ m.lead := zpow_le_zpow_right₀ one_le_two hgt
        _ ≤ m.toRat := (toRat_between hm hm').1
    exact absurd h (not_le.2 hlt)

/-! ## Numbers -/

/-- A logarithm that keeps the order of numbers. -/
def IsMonotone (log : Float → Float) : Prop :=
  ∀ x y : Float, x.isFinite = true → y.isFinite = true → 0 < x → x ≤ y → log x ≤ log y

/-- The logarithm keeps the order of positive finite numbers. -/
theorem monotone_log2 : IsMonotone log2 := by
  intro x y hx hy hx0 hxy
  have hx1 := (pos_iff_toRat hx).1 hx0
  have hle := (le_iff_toRat hx hy).1 hxy
  have hy1 := hx1.trans_le hle
  obtain ⟨hlogx, hx2⟩ := toRat_log2 hx hx1
  obtain ⟨hlogy, hy2⟩ := toRat_log2 hy hy1
  rw [le_iff_toRat hlogx hlogy, hx2, hy2]
  refine div_le_div_of_nonneg_right ?_ (by positivity)
  obtain ⟨hvalx, hsigx⟩ := toRat_magnitude hx hx1
  obtain ⟨hvaly, hsigy⟩ := toRat_magnitude hy hy1
  have hfixed := log2Fixed_le_log2Fixed hsigx (significand_lt x) hsigy (significand_lt y)
    (hvalx.trans_le (hle.trans_eq hvaly.symm))
  rcases hfixed.eq_or_lt with heq | hlt
  · rw [heq]
  · obtain ⟨hfinx, hclosex⟩ := isClosest_log2Fixed hx hx1
    obtain ⟨hfiny, hclosey⟩ := isClosest_log2Fixed hy hy1
    exact hclosex.mono hfinx hfiny hclosey (by exact_mod_cast hlt)

end ScalarRoots.Binary64
