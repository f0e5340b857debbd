import ScalarRoots.Bracketing.Settings
import ScalarRoots.Proofs.Binary64.Whole

/-!
# Rounding to decimal places

Rounding to decimal places rounds three times: the number is scaled up, the scaled number is
rounded to a whole one, and this is scaled down again.  Only the second rounding is asked for.
As long as the scaled number is at most `2 ^ 53`, the other two are so small that the three
together do not move a number by more than a unit of its last decimal place.  Beyond that the
scaled number is whole anyway, and all that is left are the errors of scaling up and down, two
parts in `2 ^ 53`; but a unit of the last place is less than these, and numbers do not stay
where they are.

## Key results

- `IsRescaled`: the three roundings, over fractions
- `IsRescaled.abs_sub_le_of_kept` / `IsRescaled.abs_sub_le_of_lt` / `IsRescaled.abs_sub_le_of_ge`:
  their errors together, by the size of the scaled number
- `StaysNear`: how far a number may move
- `staysNear_roundToPlaces`: and how far it does
-/

namespace ScalarRoots.Binary64

/-! ## Three roundings -/

/-- What rounding a number to decimal places does to the fraction `x ≥ 0` that it stands for: it
    is scaled up to `p`, rounded to a whole number `r`, and scaled down to `q`. -/
structure IsRescaled (s : ℕ) (x p r q : ℚ) : Prop where
  scaled : IsClosest p (x * s)
  kept : 2 ^ 52 ≤ p → r = p
  rounded : p < 2 ^ 52 → r = ⌊p + 1 / 2⌋₊
  unscaled : IsClosest q (r / s)

/-- `x ≥ 0` is a significand of fifty-three binary places times a power of two, and uses all of
    the places unless the exponent is the least one. -/
structure IsSignificand (m e : ℤ) (x : ℚ) : Prop where
  nonneg : 0 ≤ m
  lt : m < 2 ^ 53
  least_le : leastExponent ≤ e
  lead : 2 ^ 52 ≤ m ∨ e = leastExponent
  eq : x = m * 2 ^ e

/-- A finite number that is not negative is of this form. -/
theorem exists_isSignificand {x : Float} (hx : x.isFinite = true) (hnonneg : 0 ≤ toRat x) :
    ∃ m e, IsSignificand m e (toRat x) := by
  obtain ⟨m, e, hm, he, hlead, hmx⟩ := exists_significand hx
  rw [hmx] at hnonneg
  have hm0 := Int.cast_nonneg_iff.1 (nonneg_of_mul_nonneg_left hnonneg (zpow_pos two_pos e))
  rw [abs_of_nonneg hm0] at hm hlead
  exact ⟨m, e, hm0, hm, he, hlead, hmx⟩

namespace IsSignificand

variable {m e : ℤ} {x : ℚ} (h : IsSignificand m e x)

include h

/-- What it stands for is not negative. -/
theorem value_nonneg : 0 ≤ x := by
  have : (0 : ℚ) ≤ m := by exact_mod_cast h.nonneg
  rw [h.eq]
  positivity

/-- Neighbours of the significand that are not too large fit as well. -/
theorem abs_add_le_of_le {k : ℤ} (hlow : -2 ^ 53 ≤ k) (hhigh : m + k ≤ 2 ^ 53) :
    |m + k| ≤ 2 ^ 53 := by
  have := h.nonneg
  exact abs_le.2 ⟨by omega, hhigh⟩

/-- Scaled numbers in the last binade with a place behind the point have steps of more than a
    quarter of a unit and less than a whole one. -/
theorem step_bounds {s : ℕ} (hs : s ≤ 2 ^ 50) (hge : 2 ^ 51 ≤ x * s) (hlt : x * s < 2 ^ 52)
    {d : ℚ} (hd : d = 2 ^ e * s) : 1 / 4 < d ∧ d < 1 := by
  have hs50 : (s : ℚ) ≤ 2 ^ 50 := by exact_mod_cast hs
  have hm0 : (0 : ℚ) ≤ m := by exact_mod_cast h.nonneg
  have hm53 : (m : ℚ) < 2 ^ 53 := by exact_mod_cast h.lt
  have hxd : x * s = m * d := by rw [h.eq, hd, mul_assoc]
  constructor
  · by_contra hle
    have : m * d ≤ m * (1 / 4) := mul_le_mul_of_nonneg_left (not_lt.1 hle) hm0
    linarith
  · rcases h.lead with hlead | hleast
    · by_contra hle
      have hlead : (2 : ℚ) ^ 52 ≤ m := by exact_mod_cast hlead
      have : m * 1 ≤ m * d := mul_le_mul_of_nonneg_left (not_lt.1 hle) hm0
      linarith
    · -- the least numbers are not scaled up as far as that
      have htiny : (2 : ℚ) ^ e * s ≤ 2 ^ (-52 : ℤ) * 2 ^ 50 :=
        mul_le_mul (zpow_le_zpow_right₀ one_le_two (by rw [hleast]; decide)) hs50
          s.cast_nonneg (by positivity)
      rw [← hd] at htiny
      norm_num at htiny
      linarith

end IsSignificand

/-- A distance is scaled with its ends. -/
private theorem abs_sub_mul_natCast (a b : ℚ) (s : ℕ) : |a - b| * s = |a * s - b * s| := by
  rw [← sub_mul, abs_mul, Nat.abs_cast]

/-- Scaling down a whole number below `2 ^ 51` is far from losing half a unit. -/
theorem IsClosest.abs_mul_sub_le {s n : ℕ} {q : ℚ} (h : IsClosest q (n / s)) (hs : 0 < s)
    (hs' : s ≤ 2 ^ 50) (hn : n ≤ 2 ^ 51 + 1) : |q * s - n| ≤ 3 / 8 := by
  have hs0 : (0 : ℚ) < s := by exact_mod_cast hs
  have hscale := abs_sub_mul_natCast q (n / s) s
  rw [div_mul_cancel₀ _ hs0.ne'] at hscale
  rcases Nat.eq_zero_or_pos n with rfl | hpos
  · -- zero is not rounded
    have hzero := h 0 0 (by decide) (by decide)
    have hq : q = 0 := by simpa using hzero
    rw [hq]
    norm_num
  · -- all other whole numbers stay far above the subnormal numbers
    have hn1 : (1 : ℚ) ≤ n := by exact_mod_cast hpos
    have hn51 : (n : ℚ) ≤ 2 ^ 51 + 1 := by exact_mod_cast hn
    have hs50 : (s : ℚ) ≤ 2 ^ 50 := by exact_mod_cast hs'
    have habs : |(n / s : ℚ)| = n / s := abs_of_pos (by positivity)
    have hnormal : (2 : ℚ) ^ (-1022 : ℤ) ≤ |(n / s : ℚ)| := by
      rw [habs, le_div_iff₀ hs0]
      calc (2 : ℚ) ^ (-1022 : ℤ) * s ≤ 2 ^ (-50 : ℤ) * 2 ^ 50 :=
            mul_le_mul (zpow_le_zpow_right₀ one_le_two (by decide)) hs50 hs0.le (by positivity)
        _ = 1 := by norm_num
        _ ≤ n := hn1
    have herror := mul_le_mul_of_nonneg_right (h.abs_sub_le_div hnormal) hs0.le
    rw [hscale, habs, div_right_comm, div_mul_cancel₀ _ hs0.ne'] at herror
    linarith

/-- A power of two from `2 ^ 51` on is scaled up to a whole number, so there is no other whole
    number close to it. -/
private theorem le_of_powerOfTwo {s : ℕ} (hs : s ≤ 2 ^ 50) {e : ℤ} {d : ℚ} (hd : d = 2 ^ e * s)
    (hlarge : 2 ^ 51 ≤ 2 ^ 53 * d) {n : ℕ} (hn : n ≤ 2 ^ 53 * d + 1 / 2) : n ≤ 2 ^ 53 * d := by
  have hsplit : 2 ^ 53 * d = 2 ^ (e + 53) * s := by
    rw [hd, ← mul_assoc, ← zpow_natCast, ← zpow_add₀ two_ne_zero, add_comm e]
    rfl
  -- a fraction below one would be scaled up to `2 ^ 50` at most
  have hexp : 0 ≤ e + 53 := by
    by_contra hneg
    have hs50 : (s : ℚ) ≤ 2 ^ 50 := by exact_mod_cast hs
    have hone : (2 : ℚ) ^ (e + 53) * s ≤ 2 ^ (0 : ℤ) * 2 ^ 50 :=
      mul_le_mul (zpow_le_zpow_right₀ one_le_two (by omega)) hs50 s.cast_nonneg (by positivity)
    rw [← hsplit] at hone
    norm_num at hone
    linarith
  obtain ⟨k, hk⟩ := Int.eq_ofNat_of_zero_le hexp
  have hwhole : 2 ^ 53 * d = (2 ^ k * s : ℕ) := by
    rw [hsplit, hk]
    push_cast
    rw [zpow_natCast]
  rw [hwhole] at hn ⊢
  have hlt : (n : ℚ) < (2 ^ k * s : ℕ) + 1 := by linarith
  exact_mod_cast Nat.lt_add_one_iff.1 (by exact_mod_cast hlt)

namespace IsRescaled

variable {s : ℕ} {x p r q : ℚ} (h : IsRescaled s x p r q) (hs : 0 < s)

include h

/-- The scaled number is rounded by at most half of the weight of its last place. -/
theorem abs_scaled_sub_le_half (hnonneg : 0 ≤ x) {e : ℤ} (he : leastExponent ≤ e)
    (hle : x * s ≤ 2 ^ 53 * 2 ^ e) : |p - x * s| ≤ 2 ^ e / 2 :=
  h.scaled.abs_sub_le_half he ((abs_of_nonneg (by positivity)).trans_le hle)

/-- Rounding to a whole number moves it by half a unit at most. -/
theorem exists_rounded (hlt : p < 2 ^ 52) (hlow : 0 ≤ p + 1 / 2) :
    ∃ n : ℕ, r = n ∧ n ≤ p + 1 / 2 ∧ p - 1 / 2 ≤ n :=
  ⟨_, h.rounded hlt, Nat.floor_le hlow, by
    have := Nat.lt_floor_add_one (p + 1 / 2)
    linarith⟩

include hs

/-- Scaled numbers that are whole are scaled down again as they are. -/
theorem abs_sub_le_of_kept {m e : ℤ} (hx : IsSignificand m e x) (hp : 2 ^ 52 ≤ p) :
    |q - x| * s ≤ 2 * |p - x * s| := by
  have hs0 : (0 : ℚ) < s := by exact_mod_cast hs
  have hle := h.unscaled m e ((abs_of_nonneg hx.nonneg).trans_le hx.lt.le) hx.least_le
  -- going back is no farther than the way from where it came
  have htriangle := abs_sub_le q (r / s) x
  have hscale : |r / s - x| * s = |p - x * s| := by
    rw [abs_sub_mul_natCast, div_mul_cancel₀ _ hs0.ne', h.kept hp]
  rw [← hx.eq, abs_sub_comm x] at hle
  calc |q - x| * s ≤ 2 * |r / s - x| * s := mul_le_mul_of_nonneg_right (by linarith) hs0.le
    _ = 2 * |p - x * s| := by rw [mul_assoc, hscale]

/-- A scaled number below `2 ^ 51` has two places behind the point, so that the three errors
    are less than a unit together. -/
theorem abs_sub_le_of_lt (hs' : s ≤ 2 ^ 50) (hnonneg : 0 ≤ x) (hlt : x * s < 2 ^ 51) :
    |q - x| * s ≤ 1 := by
  have hprod : 0 ≤ x * s := by positivity
  have hquarter : (2 : ℚ) ^ (-2 : ℤ) = 1 / 4 := by norm_num
  have hscaled : |p - x * s| ≤ 1 / 4 / 2 :=
    hquarter ▸ h.abs_scaled_sub_le_half hnonneg (e := -2) (by decide) (by rw [hquarter]; linarith)
  obtain ⟨hlow, hhigh⟩ := abs_le.1 hscaled
  obtain ⟨n, rfl, hn, hn'⟩ := h.exists_rounded (by linarith) (by linarith)
  -- the whole number may be one more than the bound, where the fraction was rounded up
  have hfits : n ≤ 2 ^ 51 + 1 := by
    have : (n : ℚ) ≤ 2 ^ 51 + 1 := by linarith
    exact_mod_cast this
  obtain ⟨hback, hback'⟩ := abs_le.1 (h.unscaled.abs_mul_sub_le hs hs' hfits)
  rw [abs_sub_mul_natCast, abs_le]
  constructor <;> linarith

/-- A number that is `k` steps above `x`, but not more than a unit, keeps the result from going
    farther up than a unit. -/
theorem mul_le_of_step {m e : ℤ} (hx : IsSignificand m e x) (k : ℤ) (hk : |m + k| ≤ 2 ^ 53)
    {b d : ℚ} (hd : d = 2 ^ e * s) (hb : b ≤ k * d) (hone : k * d ≤ 1)
    (hr : r ≤ x * s + (b + 1) / 2) : q * s ≤ x * s + 1 := by
  have hs0 : (0 : ℚ) < s := by exact_mod_cast hs
  have hstep : ((m + k : ℤ) : ℚ) * 2 ^ e * s = x * s + k * d := by
    rw [hx.eq, hd, Int.cast_add]
    ring
  rw [← le_div_iff₀ hs0]
  -- `b` is how far up the other number is at least, in units
  refine h.unscaled.le_of_between hk hx.least_le (b := (x * s + b) / s) ?_ ?_ ?_
  · rw [div_le_iff₀ hs0]
    linarith
  · rw [le_div_iff₀ hs0]
    linarith
  · rw [← add_div, ← mul_div_assoc]
    exact div_le_div_of_nonneg_right (by linarith) hs0.le

/-- One below `x` keeps it from going farther down. -/
theorem le_mul_of_step {m e : ℤ} (hx : IsSignificand m e x) (k : ℤ) (hk : |m + -k| ≤ 2 ^ 53)
    {b d : ℚ} (hd : d = 2 ^ e * s) (hb : b ≤ k * d) (hone : k * d ≤ 1)
    (hr : x * s - (b + 1) / 2 ≤ r) : x * s - 1 ≤ q * s := by
  have hs0 : (0 : ℚ) < s := by exact_mod_cast hs
  have hstep : ((m + -k : ℤ) : ℚ) * 2 ^ e * s = x * s - k * d := by
    rw [hx.eq, hd, Int.cast_add, Int.cast_neg]
    ring
  rw [← div_le_iff₀ hs0]
  refine h.unscaled.ge_of_between hk hx.least_le (b := (x * s - b) / s) ?_ ?_ ?_
  · rw [le_div_iff₀ hs0]
    linarith
  · rw [div_le_iff₀ hs0]
    linarith
  · rw [← add_div, ← mul_div_assoc]
    exact div_le_div_of_nonneg_right (by linarith) hs0.le

/-- From `2 ^ 51` on a scaled number has a single place behind the point, and `x` has all of its
    fifty-three places.  So the numbers around `x` are close enough for one or two steps to lead
    away from it by half a unit to a unit, except in front of a power of two; but this is scaled
    up to a whole number, and then `x` is not rounded to a whole number beyond it. -/
theorem abs_sub_le_of_ge {m e : ℤ} (hx : IsSignificand m e x) (hs' : s ≤ 2 ^ 50)
    (hge : 2 ^ 51 ≤ x * s) (hlt : x * s < 2 ^ 52) (hp : p < 2 ^ 52) : |q - x| * s ≤ 1 := by
  have hhalf : (2 : ℚ) ^ (-1 : ℤ) = 1 / 2 := by norm_num
  have hscaled : |p - x * s| ≤ 1 / 2 / 2 :=
    hhalf ▸ h.abs_scaled_sub_le_half hx.value_nonneg (e := -1) (by decide)
      (by rw [hhalf]; linarith)
  obtain ⟨hlow, hhigh⟩ := abs_le.1 hscaled
  obtain ⟨n, rfl, hn, hn'⟩ := h.exists_rounded hp (by linarith)
  -- `d` is a step, scaled up
  obtain ⟨d, hd⟩ : ∃ d : ℚ, d = 2 ^ e * s := ⟨_, rfl⟩
  obtain ⟨hquarter, hone⟩ := hx.step_bounds hs' hge hlt hd
  have hlt53 := hx.lt
  rw [abs_sub_mul_natCast, abs_le]
  by_cases hwide : 1 / 2 ≤ d
  · -- one step is enough
    have hstep : 1 / 2 ≤ ((1 : ℤ) : ℚ) * d := by
      push_cast
      linarith
    have hdown := h.le_mul_of_step hs hx 1 (hx.abs_add_le_of_le (by decide) (by omega)) hd
      hstep (by push_cast; linarith) (by linarith)
    have hup := h.mul_le_of_step hs hx 1 (hx.abs_add_le_of_le (by decide) (by omega)) hd
      hstep (by push_cast; linarith) (by linarith)
    constructor <;> linarith
  · -- it takes two
    have htwo : 1 / 2 ≤ ((2 : ℤ) : ℚ) * d := by
      push_cast
      linarith
    have hdown := h.le_mul_of_step hs hx 2 (hx.abs_add_le_of_le (by decide) (by omega)) hd
      htwo (by push_cast; linarith) (by linarith)
    have hup : q * s ≤ x * s + 1 := by
      by_cases hroom : m + 2 ≤ 2 ^ 53
      · exact h.mul_le_of_step hs hx 2 (hx.abs_add_le_of_le (by decide) hroom) hd htwo
          (by push_cast; linarith) (by linarith)
      · -- the next number is a power of two
        have hlast : (m : ℚ) = 2 ^ 53 - 1 := by
          have : m = 2 ^ 53 - 1 := by omega
          exact_mod_cast congrArg (Int.cast (R := ℚ)) this
        have hnext : 2 ^ 53 * d = x * s + d := by
          rw [hx.eq, hlast, hd]
          ring
        have hpower := le_of_powerOfTwo hs' hd (n := n) (by linarith) (by linarith)
        exact h.mul_le_of_step hs hx 0 (hx.abs_add_le_of_le (by decide) (by omega)) hd (b := 0)
          (by simp) (by simp) (by linarith)
    constructor <;> linarith

omit hs in
/-- What is scaled up to `2 ^ 52` or more is not rounded below that. -/
theorem two_pow_le_scaled (hge : 2 ^ 52 ≤ x * s) : 2 ^ 52 ≤ p := by
  have hclose := h.scaled (2 ^ 52) 0 (by decide) (by decide)
  rw [zpow_zero, mul_one, Int.cast_pow, Int.cast_ofNat, abs_sub_comm p,
    abs_of_nonpos (by linarith : (2 : ℚ) ^ 52 - x * s ≤ 0)] at hclose
  have := le_abs_self (x * s - p)
  linarith

/-- Up to `2 ^ 53` the three errors are at most a unit together. -/
theorem abs_sub_le_one {m e : ℤ} (hx : IsSignificand m e x) (hs' : s ≤ 2 ^ 50)
    (hle : x * s ≤ 2 ^ 53) : |q - x| * s ≤ 1 := by
  -- by the size of the scaled number: whole, with two places behind the point, or with one
  rcases le_or_gt (2 ^ 52) p with hp | hp
  · have herror := h.abs_scaled_sub_le_half hx.value_nonneg (e := 0) (by decide)
      (by simpa using hle)
    have hkept := h.abs_sub_le_of_kept hs hx hp
    rw [zpow_zero] at herror
    linarith
  · rcases lt_or_ge (x * s) (2 ^ 51) with hlt | hge
    · exact h.abs_sub_le_of_lt hs hs' hx.value_nonneg hlt
    · have hbelow : x * s < 2 ^ 52 := lt_of_not_ge fun hge' =>
        absurd (h.two_pow_le_scaled hge') (not_le.2 hp)
      exact h.abs_sub_le_of_ge hs hx hs' hge hbelow hp

/-- Beyond that they are two parts in `2 ^ 53`. -/
theorem abs_sub_le_div {m e : ℤ} (hx : IsSignificand m e x) (hlt : 2 ^ 53 < x * s) :
    |q - x| * s ≤ x * s / 2 ^ 52 := by
  have habs : |x * s| = x * s := abs_of_pos (by linarith)
  have hnormal : (2 : ℚ) ^ (-1022 : ℤ) ≤ |x * s| := by
    have hone : (2 : ℚ) ^ (-1022 : ℤ) ≤ 2 ^ (0 : ℤ) := zpow_le_zpow_right₀ one_le_two (by decide)
    rw [habs]
    rw [zpow_zero] at hone
    linarith
  have herror := h.scaled.abs_sub_le_div hnormal
  have hkept := h.abs_sub_le_of_kept hs hx (h.two_pow_le_scaled (by linarith))
  rw [habs] at herror
  linarith

end IsRescaled

/-! ## Numbers -/

/-- How far a number moves when it is rounded to decimal places: not farther than a unit of the
    last place, or than two parts in `2 ^ 53` where such a unit is less than those. -/
structure StaysNear (places : ℕ) (x r : Float) : Prop where
  finite : r.isFinite = true
  near : |toRat x| * 10 ^ places ≤ 2 ^ 53 → |toRat r - toRat x| ≤ 1 / 10 ^ places
  far : 2 ^ 53 < |toRat x| * 10 ^ places → |toRat r - toRat x| ≤ |toRat x| / 2 ^ 52

namespace StaysNear

/-- A number that is kept stays near. -/
theorem self {x : Float} (hx : x.isFinite = true) (places : ℕ) : StaysNear places x x where
  finite := hx
  near _ := by
    rw [sub_self, abs_zero]
    positivity
  far _ := by
    rw [sub_self, abs_zero]
    positivity

/-- It is enough to look at the negated numbers. -/
theorem of_neg {places : ℕ} {x r : Float} (h : StaysNear places (-x) (-r)) :
    StaysNear places x r := by
  obtain ⟨hfin, hnear, hfar⟩ := h
  rw [isFinite_neg_self] at hfin
  simp only [toRat_neg, abs_neg, neg_sub_neg] at hnear hfar
  rw [abs_sub_comm] at hnear hfar
  exact ⟨hfin, hnear, hfar⟩

end StaysNear

/-- The powers of ten up to the fifteenth are numbers of fifty-three binary places. -/
theorem toRat_decimalScale {places : ℕ} (h : places ≤ maxDigits) :
    (decimalScale places).isFinite = true ∧
      toRat (decimalScale places) = (10 ^ places : ℕ) := by
  refine toRat_ofNat (lt_of_le_of_lt (Nat.pow_le_pow_right (by decide) h) ?_)
  decide

/-- Rounding to decimal places is symmetric about zero. -/
theorem roundToPlaces_neg (x : Float) (places : ℕ) :
    roundToPlaces (-x) places = -roundToPlaces x places := by
  simp only [roundToPlaces, Binary64.neg_mul, roundHalfAway_neg, Binary64.neg_div,
    isFinite_neg_self]
  split_ifs <;> rfl

/-- What is not negative goes through the three roundings, unless it is scaled up too far. -/
theorem isRescaled_roundToPlaces {x : Float} (hx : x.isFinite = true) (hnonneg : 0 ≤ toRat x)
    {places : ℕ} (h : places ≤ maxDigits) :
    roundToPlaces x places = x ∨ (roundToPlaces x places).isFinite = true ∧
      ∃ p r, IsRescaled (10 ^ places) (toRat x) p r (toRat (roundToPlaces x places)) := by
  obtain ⟨hscale, hten⟩ := toRat_decimalScale h
  have hpos : 0 < toRat (decimalScale places) := by
    rw [hten]
    positivity
  unfold roundToPlaces
  simp only
  split_ifs with hfin
  · right
    have hrounded := (isFinite_of_isFinite_div hfin).1
    -- what is infinite when it is scaled up stays so, and the number is kept
    have hscaled : (x * decimalScale places).isFinite = true := by
      by_contra hinf
      rw [roundHalfAway_eq_self fun h => absurd h hinf] at hrounded
      exact hinf hrounded
    have hclose := isClosest_mul hx hscale hscaled
    have hback := isClosest_div hrounded hscale hpos.ne' hfin
    have hp := hclose.nonneg (mul_nonneg hnonneg hpos.le)
    rw [hten] at hclose hback
    refine ⟨hfin, _, _, hclose, fun hge => ?_, fun hlt => ?_, hback⟩
    · rw [roundHalfAway_eq_self fun _ => (hge.trans (le_abs_self _))]
    · exact (toRat_roundHalfAway hscaled hp hlt).2
  · exact .inl rfl

/-- Rounding to decimal places keeps a number near, whatever number it is. -/
theorem staysNear_roundToPlaces {x : Float} (hx : x.isFinite = true) {places : ℕ}
    (h : places ≤ maxDigits) : StaysNear places x (roundToPlaces x places) := by
  -- numbers below zero are rounded like their magnitudes
  wlog hnonneg : 0 ≤ toRat x generalizing x
  · refine .of_neg ?_
    rw [← roundToPlaces_neg]
    refine this ((isFinite_neg_self x).trans hx) ?_
    rw [toRat_neg]
    linarith
  rcases isRescaled_roundToPlaces hx hnonneg h with hself | ⟨hfin, p, r, hround⟩
  · rw [hself]
    exact .self hx places
  · obtain ⟨m, e, hme⟩ := exists_isSignificand hx hnonneg
    have hs : 0 < 10 ^ places := by positivity
    have hs' : 10 ^ places ≤ 2 ^ 50 :=
      (Nat.pow_le_pow_right (by decide) h).trans (by decide)
    have hpos : (0 : ℚ) < 10 ^ places := by positivity
    have hnear := hround.abs_sub_le_one hs hme hs'
    have hfar := hround.abs_sub_le_div hs hme
    push_cast at hnear hfar
    refine ⟨hfin, fun hle => ?_, fun hlt => ?_⟩
    · rw [abs_of_nonneg hnonneg] at hle
      rw [le_div_iff₀ hpos]
      exact hnear hle
    · rw [abs_of_nonneg hnonneg] at hlt ⊢
      refine le_of_mul_le_mul_right ((hfar hlt).trans_eq ?_) hpos
      rw [div_mul_eq_mul_div]

end ScalarRoots.Binary64
