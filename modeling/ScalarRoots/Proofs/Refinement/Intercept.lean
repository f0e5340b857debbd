import ScalarRoots.Proofs.Binary64.Arithmetic
import ScalarRoots.Proofs.Refinement.Enclosure

/-!
# Where the intercept lies

In exact arithmetic the line through two points with values of opposite sign crosses zero
between them.  The computed intercept comes from the newer point by a stride, the quotient of
a product and a rise, and four results are rounded on the way.  The stride never has the wrong
direction, so the intercept never lies beyond the newer point.  It may be too long by a
rounding or two, though, when the older value is so small against the newer one that the rise
hardly shows it, or when the product underflows.  Apart from these cases the intercept lies
between the two points.

## Key results

- `TwoPoint.units_stride`: the stride in units, with the value and the rise taken in magnitude
- `TwoPoint.intercept_newer`: the intercept does not pass the newer point
- `strideUnits_le`: nor is the stride too long, for balanced values
- `TwoPoint.IsBalanced.between_intercept`: so the intercept lies between the points
- `TwoPoint.isBalanced_of_criterion?_eq_none`: when the product does not underflow
-/

namespace ScalarRoots

open Binary64

/-! ## Between two numbers -/

/-- The number lies between the two others, whichever of them is the smaller one. -/
def Between (a b x : Float) : Prop := a ≤ x ∧ x ≤ b ∨ b ≤ x ∧ x ≤ a

instance (a b x : Float) : Decidable (Between a b x) := by unfold Between; infer_instance

/-- Either end lies between the ends. -/
theorem between_left {a b : Float} (ha : a.isNaN = false) (hb : b.isNaN = false) :
    Between a b a := by
  by_cases h : a < b
  · exact .inl ⟨le_refl ha, le_of_lt h⟩
  · exact .inr ⟨le_of_not_lt ha hb h, le_refl ha⟩

/-- The ends may change places. -/
theorem Between.symm {a b x : Float} (h : Between a b x) : Between b a x := Or.symm h

/-- So does the other end. -/
theorem between_right {a b : Float} (ha : a.isNaN = false) (hb : b.isNaN = false) :
    Between a b b :=
  (between_left hb ha).symm

/-- What lies between two numbers that lie between others lies between those as well. -/
theorem Between.trans {a b c d x : Float} (hc : Between a b c) (hd : Between a b d)
    (hx : Between c d x) : Between a b x := by
  -- all orders of the four ends
  rcases hc with ⟨hac, hcb⟩ | ⟨hbc, hca⟩ <;> rcases hd with ⟨had, hdb⟩ | ⟨hbd, hda⟩ <;>
    rcases hx with ⟨hcx, hxd⟩ | ⟨hdx, hxc⟩
  · exact .inl ⟨le_trans hac hcx, le_trans hxd hdb⟩
  · exact .inl ⟨le_trans had hdx, le_trans hxc hcb⟩
  · exact .inl ⟨le_trans hac hcx, le_trans hxd (le_trans hda (le_trans hac hcb))⟩
  · exact .inr ⟨le_trans hbd hdx, le_trans hxc (le_trans hcb (le_trans hbd hda))⟩
  · exact .inr ⟨le_trans hbc hcx, le_trans hxd (le_trans hdb (le_trans hbc hca))⟩
  · exact .inl ⟨le_trans had hdx, le_trans hxc (le_trans hca (le_trans had hdb))⟩
  · exact .inr ⟨le_trans hbc hcx, le_trans hxd hda⟩
  · exact .inr ⟨le_trans hbd hdx, le_trans hxc hca⟩

/-- Between numbers that are not NaN, this is told by their units. -/
theorem between_iff {a b x : Float} (ha : a.isNaN = false) (hb : b.isNaN = false)
    (hx : x.isNaN = false) :
    Between a b x ↔
      units a ≤ units x ∧ units x ≤ units b ∨ units b ≤ units x ∧ units x ≤ units a := by
  simp only [Between, le_iff, ha, hb, hx, and_self, true_and]

/-- Values of opposite sign have units of opposite sign. -/
theorem units_of_oppositeSigns {y y' : Float} (h : OppositeSigns y y') :
    units y < 0 ∧ 0 < units y' ∨ 0 < units y ∧ units y' < 0 := by
  unfold OppositeSigns at h
  simp only [lt_iff, units_zero] at h
  exact h.imp (fun h => ⟨h.1.2, h.2.2⟩) fun h => ⟨h.1.2, h.2.2⟩

/-! ## The stride -/

namespace TwoPoint

/-- How far the intercept is behind the newer point. -/
def stride (s : TwoPoint) : Float := s.newer.y * s.gap / (s.newer.y - s.older.y)

/-- The intercept is finite only if everything it is computed from is, with one exception:
    the rise may overflow, and then the stride is zero. -/
theorem finite_of_intercept {s : TwoPoint} {x : Float} (h : s.intercept = some x) :
    (s.older.x.isFinite = true ∧ s.newer.x.isFinite = true) ∧ s.gap.isFinite = true ∧
      s.newer.y.isFinite = true ∧ (s.newer.y * s.gap).isFinite = true ∧
      s.stride.isFinite = true ∧
      ((s.newer.y - s.older.y).isFinite = true ∨ units s.stride = 0) := by
  obtain ⟨hx, -, rfl⟩ := intercept_eq_some h
  obtain ⟨-, hstride⟩ := isFinite_of_isFinite_sub hx
  -- back through the quotient, the product and the difference
  obtain ⟨hproduct, hrise⟩ := isFinite_of_isFinite_div hstride
  obtain ⟨hy, hgap⟩ := isFinite_of_isFinite_mul hproduct
  obtain ⟨hnewer, holder⟩ := isFinite_of_isFinite_sub hgap
  exact ⟨⟨holder, hnewer⟩, hgap, hy, hproduct, hstride, hrise⟩

/-- The intercept is the rounded difference of the newer point and the stride. -/
theorem units_intercept {s : TwoPoint} {x : Float} (h : s.intercept = some x) :
    units x = roundUnits (units s.newer.x - units s.stride) := by
  obtain ⟨⟨-, hnewer⟩, -, -, -, hstride, -⟩ := finite_of_intercept h
  obtain ⟨-, -, rfl⟩ := intercept_eq_some h
  exact (units_sub hnewer hstride).2

end TwoPoint

/-- The units of a stride over a gap of `g` units, for a value of `m` units and a rise of `r`
    units: the product is rounded, and then the quotient. -/
def strideUnits (m r g : ℚ) : ℤ :=
  roundUnits (roundUnits (m * g / unitsPerOne) * unitsPerOne / r)

/-- A stride does not change when value and rise both change their signs. -/
theorem strideUnits_neg_neg (m r g : ℚ) : strideUnits (-m) (-r) g = strideUnits m r g := by
  unfold strideUnits
  rw [neg_mul, neg_div, roundUnits_neg, Int.cast_neg, neg_mul, neg_div_neg_eq]

/-- It changes its direction with the gap. -/
theorem strideUnits_neg (m r g : ℚ) : strideUnits m r (-g) = -strideUnits m r g := by
  unfold strideUnits
  rw [mul_neg, neg_div, roundUnits_neg, Int.cast_neg, neg_mul, neg_div, roundUnits_neg]

/-- In magnitudes, no stride goes backwards. -/
theorem strideUnits_nonneg {m r g : ℚ} (hm : 0 ≤ m) (hr : 0 ≤ r) (hg : 0 ≤ g) :
    0 ≤ strideUnits m r g := by
  have hproduct : (0 : ℚ) ≤ roundUnits (m * g / unitsPerOne) := by
    exact_mod_cast roundUnits_nonneg (div_nonneg (mul_nonneg hm hg) unitsPerOne_pos.le)
  exact roundUnits_nonneg (div_nonneg (mul_nonneg hproduct unitsPerOne_pos.le) hr)

/-- The length of a stride is that over the length of the gap. -/
theorem abs_strideUnits {m r : ℚ} (hm : 0 ≤ m) (hr : 0 ≤ r) (g : ℚ) :
    |strideUnits m r g| = strideUnits m r |g| := by
  rcases le_total 0 g with h | h
  · rw [abs_of_nonneg h, abs_of_nonneg (strideUnits_nonneg hm hr h)]
  · have hnonneg := strideUnits_nonneg hm hr (neg_nonneg.2 h)
    rw [abs_of_nonpos h, ← abs_of_nonneg hnonneg, strideUnits_neg, abs_neg]

/-- Between values of opposite sign, the rise has the sign of the newer value, and its
    magnitude is the rounded sum of theirs. -/
theorem TwoPoint.units_rise {s : TwoPoint} (h : (s.newer.y - s.older.y).isFinite = true)
    (hsign : OppositeSigns s.older.y s.newer.y) :
    let total : ℤ :=
      roundMagnitude ((units s.newer.y).natAbs + (units s.older.y).natAbs : ℕ)
    0 < total ∧
      (0 < units s.newer.y ∧ units (s.newer.y - s.older.y) = total ∨
        units s.newer.y < 0 ∧ units (s.newer.y - s.older.y) = -total) := by
  intro total
  obtain ⟨hnewer, holder⟩ := isFinite_of_isFinite_sub h
  obtain ⟨-, hrise⟩ := units_sub hnewer holder
  obtain ⟨-, hlt⟩ := isFinite_iff.1 h
  set a := units s.older.y
  set b := units s.newer.y
  have hsum : (0 : ℚ) ≤ (b.natAbs + a.natAbs : ℕ) := Nat.cast_nonneg _
  -- the difference of values of opposite sign is the sum of their magnitudes, with a sign
  have hcases : 0 < b ∧ units (s.newer.y - s.older.y) = roundUnits (b.natAbs + a.natAbs : ℕ) ∨
      b < 0 ∧ units (s.newer.y - s.older.y) = -roundUnits (b.natAbs + a.natAbs : ℕ) := by
    rcases units_of_oppositeSigns hsign with ⟨ha, hb'⟩ | ⟨ha, hb'⟩
    · have hdiff : (b : ℚ) - a = (b.natAbs + a.natAbs : ℕ) := by
        rw [← Int.cast_sub, ← Int.cast_natCast (R := ℚ)]
        congr 1
        omega
      exact .inl ⟨hb', by rw [hrise, hdiff]⟩
    · have hdiff : (b : ℚ) - a = -(b.natAbs + a.natAbs : ℕ) := by
        rw [← Int.cast_sub, ← Int.cast_natCast (R := ℚ), ← Int.cast_neg]
        congr 1
        omega
      exact .inr ⟨hb', by rw [hrise, hdiff, roundUnits_neg]⟩
  -- it is not infinite, so the bound at infinity does not show
  have hround : roundUnits (b.natAbs + a.natAbs : ℕ) = total := by
    refine roundUnits_eq_roundMagnitude hsum ?_
    rcases hcases with ⟨-, heq⟩ | ⟨-, heq⟩ <;> rw [heq] at hlt
    · exact lt_of_abs_lt hlt
    · rw [abs_neg] at hlt
      exact lt_of_abs_lt hlt
  -- it is not smaller than the magnitude of the newer value, which is not zero
  have hlow : (b.natAbs : ℤ) ≤ total := by
    rw [← hround, ← roundUnits_natAbs_units hnewer]
    exact roundUnits_mono (Nat.cast_le.2 (Nat.le_add_right _ _))
  rw [hround] at hcases
  exact ⟨by omega, hcases⟩

/-- So the stride can be computed from the magnitudes. -/
theorem TwoPoint.units_stride {s : TwoPoint} {x : Float} (h : s.intercept = some x)
    (hsign : OppositeSigns s.older.y s.newer.y) :
    units s.stride = 0 ∨
      units s.stride =
        strideUnits (units s.newer.y).natAbs
          (roundMagnitude ((units s.newer.y).natAbs + (units s.older.y).natAbs : ℕ))
          (units s.gap) := by
  obtain ⟨-, hgap, hy, hproduct, -, hrise | hzero⟩ := finite_of_intercept h
  · right
    obtain ⟨hpos, hcases⟩ := units_rise hrise hsign
    obtain ⟨-, hproductUnits⟩ := units_mul hy hgap
    obtain ⟨-, hquotient⟩ := units_div hproduct hrise (by omega)
    rw [hproductUnits] at hquotient
    have hstride : units s.stride =
        strideUnits (units s.newer.y) (units (s.newer.y - s.older.y)) (units s.gap) := hquotient
    -- with a negative value and a negative rise, the signs cancel
    rcases hcases with ⟨hy', hrise'⟩ | ⟨hy', hrise'⟩
    · have hcast : ((units s.newer.y).natAbs : ℚ) = units s.newer.y := by
        rw [← Int.cast_natCast (R := ℚ), Int.natAbs_of_nonneg hy'.le]
      rw [hstride, hrise', hcast, Int.cast_natCast]
    · have hcast : ((units s.newer.y).natAbs : ℚ) = -units s.newer.y := by
        rw [← Int.cast_natCast (R := ℚ), Int.ofNat_natAbs_of_nonpos hy'.le, Int.cast_neg]
      rw [hstride, hrise', ← strideUnits_neg_neg, hcast, Int.cast_neg, neg_neg, Int.cast_natCast]
  · exact .inl hzero

/-! ## The newer point -/

/-- The gap is the rounded distance between the locations. -/
theorem TwoPoint.units_gap {s : TwoPoint} {x : Float} (h : s.intercept = some x) :
    units s.gap = roundUnits (units s.newer.x - units s.older.x : ℤ) := by
  obtain ⟨⟨holder, hnewer⟩, -⟩ := finite_of_intercept h
  rw [Int.cast_sub]
  exact (units_sub hnewer holder).2

/-- The stride goes in the direction of the gap. -/
theorem TwoPoint.stride_sign {s : TwoPoint} {x : Float} (h : s.intercept = some x)
    (hsign : OppositeSigns s.older.y s.newer.y) :
    (units s.older.x ≤ units s.newer.x → 0 ≤ units s.stride) ∧
      (units s.newer.x ≤ units s.older.x → units s.stride ≤ 0) := by
  rcases units_stride h hsign with hzero | hstride
  · rw [hzero]
    exact ⟨fun _ => Int.le_refl 0, fun _ => Int.le_refl 0⟩
  rw [hstride, units_gap h]
  -- the gap points from the older to the newer location, and rounding keeps that
  refine ⟨fun hle => ?_, fun hle => ?_⟩
  · have hgap := roundUnits_nonneg (Int.cast_nonneg (R := ℚ) (sub_nonneg.2 hle))
    exact strideUnits_nonneg (Nat.cast_nonneg _) (Nat.cast_nonneg _) (Int.cast_nonneg hgap)
  · have hgap := roundUnits_nonneg (Int.cast_nonneg (R := ℚ) (sub_nonneg.2 hle))
    rw [← neg_nonneg, ← strideUnits_neg, ← Int.cast_neg, ← roundUnits_neg, ← Int.cast_neg, neg_sub]
    exact strideUnits_nonneg (Nat.cast_nonneg _) (Nat.cast_nonneg _) (Int.cast_nonneg hgap)

/-- The intercept does not lie beyond the newer point. -/
theorem TwoPoint.intercept_newer {s : TwoPoint} {x : Float} (h : s.intercept = some x)
    (hsign : OppositeSigns s.older.y s.newer.y) :
    (s.older.x ≤ s.newer.x → x ≤ s.newer.x) ∧ (s.newer.x ≤ s.older.x → s.newer.x ≤ x) := by
  obtain ⟨⟨-, hnewer⟩, -⟩ := finite_of_intercept h
  obtain ⟨hx, -⟩ := intercept_eq_some h
  obtain ⟨hpos, hneg⟩ := stride_sign h hsign
  have hunits := units_intercept h
  refine ⟨fun hle => ?_, fun hle => ?_⟩
  -- a difference with what is not negative is not rounded beyond the minuend
  · have hnonneg : (0 : ℚ) ≤ units s.stride := Int.cast_nonneg (hpos (le_iff.1 hle).2)
    refine le_iff.2 ⟨⟨isNaN_of_isFinite hx, isNaN_of_isFinite hnewer⟩, ?_⟩
    exact hunits.trans_le (roundUnits_le_units hnewer (sub_le_self _ hnonneg))
  · have hnonpos : (units s.stride : ℚ) ≤ 0 := Int.cast_nonpos.2 (hneg (le_iff.1 hle).2)
    refine le_iff.2 ⟨⟨isNaN_of_isFinite hnewer, isNaN_of_isFinite hx⟩, ?_⟩
    exact (units_le_roundUnits hnewer ((le_sub_self_iff _).2 hnonpos)).trans_eq hunits.symm

/-- Nor does it lie beyond the older point, if the stride is not longer than the distance
    between the points. -/
theorem TwoPoint.between_of_abs_stride_le {s : TwoPoint} {x : Float} (h : s.intercept = some x)
    (hsign : OppositeSigns s.older.y s.newer.y)
    (hle : |units s.stride| ≤ |units s.newer.x - units s.older.x|) :
    Between s.older.x s.newer.x x := by
  obtain ⟨⟨holder, hnewer⟩, -⟩ := finite_of_intercept h
  obtain ⟨hx, -⟩ := intercept_eq_some h
  obtain ⟨hpos, hneg⟩ := stride_sign h hsign
  obtain ⟨hbelow, habove⟩ := intercept_newer h hsign
  have hunits := units_intercept h
  have hno := isNaN_of_isFinite holder
  have hnn := isNaN_of_isFinite hnewer
  have hnx := isNaN_of_isFinite hx
  -- the points in either order; the side of the newer point is known already
  rcases le_total (units s.older.x) (units s.newer.x) with horder | horder
  · have hlow : (units s.older.x : ℚ) ≤ units s.newer.x - units s.stride := by
      have hstride := hpos horder
      rw [abs_of_nonneg hstride, abs_of_nonneg (sub_nonneg.2 horder)] at hle
      exact_mod_cast le_sub_comm.1 hle
    have hfrom : units s.older.x ≤ units x :=
      (units_le_roundUnits holder hlow).trans_eq hunits.symm
    exact .inl ⟨le_iff.2 ⟨⟨hno, hnx⟩, hfrom⟩, hbelow (le_iff.2 ⟨⟨hno, hnn⟩, horder⟩)⟩
  · have hhigh : (units s.newer.x : ℚ) - units s.stride ≤ units s.older.x := by
      have hstride := hneg horder
      rw [abs_of_nonpos hstride, abs_of_nonpos (sub_nonpos.2 horder), neg_sub] at hle
      exact_mod_cast (by omega : units s.newer.x - units s.stride ≤ units s.older.x)
    have hto : units x ≤ units s.older.x := hunits.trans_le (roundUnits_le_units holder hhigh)
    exact .inr ⟨habove (le_iff.2 ⟨⟨hnn, hno⟩, horder⟩), le_iff.2 ⟨⟨hnx, hno⟩, hto⟩⟩

/-! ## Balanced values -/

/-- What is short of a whole number of units by more than one part in `2 ^ 53` is not rounded
    beyond that number. -/
theorem roundUnits_le_natCast {q : ℚ} {n : ℕ} (hq : 0 ≤ q) (h : q ≤ n * (1 - 1 / 2 ^ 53)) :
    roundUnits q ≤ n := by
  have hle : q ≤ n := by linarith [(Nat.cast_nonneg n : (0 : ℚ) ≤ n)]
  -- a short number is exact, and rounding is monotone
  rcases Nat.lt_or_ge n (2 ^ 53) with hshort | hlong
  · have hexact := roundMagnitude_mul_two_pow (k := 0) hshort
    rw [pow_zero, mul_one, pow_zero, mul_one] at hexact
    calc roundUnits q ≤ roundUnits n := roundUnits_mono hle
      _ ≤ roundMagnitude n := roundUnits_le_roundMagnitude (Nat.cast_nonneg n)
      _ = n := by rw [hexact]
  rcases le_total q (2 ^ 52) with hsmall | hlarge
  · calc roundUnits q ≤ roundUnits (2 ^ 52) := roundUnits_mono hsmall
      _ ≤ 2 ^ 52 := roundUnits_two_pow_le 52
      _ ≤ n := by omega
  -- a long one leaves room for the error
  · have herror := (abs_le.1 (abs_roundMagnitude_sub_le hlarge)).2
    have hround : (roundMagnitude q : ℚ) ≤ n := by linarith
    calc roundUnits q ≤ roundMagnitude q := roundUnits_le_roundMagnitude hq
      _ ≤ n := by exact_mod_cast hround

/-- A stride over a rounded gap is at most as long as the exact gap, when the value is at most
    `2 ^ 50` times the other one and the product is not subnormal. -/
theorem strideUnits_le {m a d : ℕ} (hratio : m ≤ 2 ^ 50 * a)
    (hnormal : 2 ^ 52 < roundUnits (m * roundUnits d / unitsPerOne)) :
    strideUnits m (roundMagnitude (m + a : ℕ)) (roundUnits d) ≤ d := by
  have hunit := unitsPerOne_pos
  have hd : (0 : ℚ) ≤ d := Nat.cast_nonneg d
  -- each of the three roundings errs by at most one part in `2 ^ 53`
  have hgap : (roundUnits d : ℚ) ≤ d * (1 + 1 / 2 ^ 53) := by
    have hle : (roundUnits d : ℚ) ≤ roundMagnitude d := by
      exact_mod_cast roundUnits_le_roundMagnitude hd
    linarith [(abs_le.1 (abs_roundMagnitude_natCast_sub_le d)).2]
  have hgNonneg : (0 : ℚ) ≤ roundUnits d := Int.cast_nonneg (roundUnits_nonneg hd)
  unfold strideUnits
  generalize (roundUnits d : ℚ) = g at *
  set p : ℚ := m * g / unitsPerOne with hp
  have hpNonneg : 0 ≤ p := div_nonneg (mul_nonneg (Nat.cast_nonneg m) hgNonneg) hunit.le
  -- a product below would not be rounded to more than that
  have hpLarge : 2 ^ 52 ≤ p := by
    by_contra hsmall
    have hround := (roundUnits_mono (not_le.1 hsmall).le).trans (roundUnits_two_pow_le 52)
    omega
  have hm : (0 : ℚ) < m := by
    refine lt_of_le_of_ne (Nat.cast_nonneg m) fun hzero => ?_
    rw [hp, ← hzero, zero_mul, zero_div] at hpLarge
    exact absurd hpLarge (by norm_num)
  have hproduct : (roundUnits p : ℚ) ≤ p * (1 + 1 / 2 ^ 53) := by
    have hle : (roundUnits p : ℚ) ≤ roundMagnitude p := by
      exact_mod_cast roundUnits_le_roundMagnitude hpNonneg
    linarith [(abs_le.1 (abs_roundMagnitude_sub_le hpLarge)).2]
  have hrise : ((m + a : ℕ) : ℚ) * (1 - 1 / 2 ^ 53) ≤ roundMagnitude (m + a : ℕ) := by
    linarith [(abs_le.1 (abs_roundMagnitude_natCast_sub_le (m + a))).1]
  -- together that is less than what the older value adds to the rise
  have hmargin : (m : ℚ) * (1 + 1 / 2 ^ 53) ^ 2 ≤ (m + a : ℕ) * (1 - 1 / 2 ^ 53) ^ 2 := by
    have hratio' : (m : ℚ) ≤ 2 ^ 50 * a := by exact_mod_cast hratio
    push_cast
    linarith
  have hrisePos : (0 : ℚ) < roundMagnitude (m + a : ℕ) := by
    have hsum : (0 : ℚ) < (m + a : ℕ) := by
      push_cast
      linarith [(Nat.cast_nonneg a : (0 : ℚ) ≤ a)]
    exact lt_of_lt_of_le (mul_pos hsum (by norm_num)) hrise
  refine roundUnits_le_natCast (div_nonneg (mul_nonneg ?_ hunit.le) hrisePos.le) ?_
  · exact_mod_cast roundUnits_nonneg hpNonneg
  rw [div_le_iff₀ hrisePos]
  -- the errors of product and gap on the left, that of the rise on the right
  calc roundUnits p * unitsPerOne ≤ p * (1 + 1 / 2 ^ 53) * unitsPerOne :=
        mul_le_mul_of_nonneg_right hproduct hunit.le
    _ = m * g * (1 + 1 / 2 ^ 53) := by
        rw [hp]
        field_simp
    _ ≤ m * (d * (1 + 1 / 2 ^ 53)) * (1 + 1 / 2 ^ 53) :=
        mul_le_mul_of_nonneg_right (mul_le_mul_of_nonneg_left hgap hm.le) (by norm_num)
    _ = d * (m * (1 + 1 / 2 ^ 53) ^ 2) := by ring
    _ ≤ d * ((m + a : ℕ) * (1 - 1 / 2 ^ 53) ^ 2) := mul_le_mul_of_nonneg_left hmargin hd
    _ = d * (1 - 1 / 2 ^ 53) * ((m + a : ℕ) * (1 - 1 / 2 ^ 53)) := by ring
    _ ≤ d * (1 - 1 / 2 ^ 53) * roundMagnitude (m + a : ℕ) :=
        mul_le_mul_of_nonneg_left hrise (mul_nonneg hd (by norm_num))

namespace TwoPoint

/-- While the newer point is no root, the invariant says that the values have opposite signs. -/
theorem Encloses.oppositeSigns {f : Float → Float} {s : TwoPoint} (h : s.Encloses f)
    (hzero : (s.newer.y == 0) = false) : OppositeSigns s.older.y s.newer.y :=
  oppositeSigns_iff.2 ⟨⟨isNaN_of_isFinite h.older_onGraph.finite, h.older_ne_zero⟩,
    ⟨isNaN_of_isFinite h.newer_onGraph.finite, hzero⟩, h.signBit_ne⟩

/-- The value at the newer point is at most `2 ^ 50` times the one at the older point, and its
    product with the gap is above the subnormal numbers. -/
structure IsBalanced (s : TwoPoint) : Prop where
  ratio_le : (units s.newer.y).natAbs ≤ 2 ^ 50 * (units s.older.y).natAbs
  normal : 2 ^ 52 < |units (s.newer.y * s.gap)|

instance (s : TwoPoint) : Decidable s.IsBalanced :=
  decidable_of_iff ((units s.newer.y).natAbs ≤ 2 ^ 50 * (units s.older.y).natAbs ∧
      2 ^ 52 < |units (s.newer.y * s.gap)|)
    ⟨fun h => ⟨h.1, h.2⟩, fun h => ⟨h.ratio_le, h.normal⟩⟩

/-- Between balanced values of opposite sign, the stride is not longer than the distance
    between the points. -/
theorem IsBalanced.abs_stride_le {s : TwoPoint} {x : Float} (hs : s.IsBalanced)
    (h : s.intercept = some x) (hsign : OppositeSigns s.older.y s.newer.y) :
    |units s.stride| ≤ |units s.newer.x - units s.older.x| := by
  rcases units_stride h hsign with hzero | hstride
  · rw [hzero, abs_zero]
    exact abs_nonneg _
  obtain ⟨-, hgap, hy, -⟩ := finite_of_intercept h
  set d := (units s.newer.x - units s.older.x).natAbs
  -- the gap is the rounded distance, whatever its sign
  have hdistance : |(units s.gap : ℚ)| = roundUnits d := by
    rw [← Int.cast_abs, units_gap h, ← roundUnits_abs, ← Int.cast_abs, Int.abs_eq_natAbs,
      Int.cast_natCast]
  have hnormal : 2 ^ 52 < roundUnits ((units s.newer.y).natAbs * roundUnits d / unitsPerOne) := by
    have hproduct := hs.normal
    rw [(units_mul hy hgap).2, ← roundUnits_abs, abs_div, abs_mul, abs_of_pos unitsPerOne_pos,
      hdistance] at hproduct
    rwa [Nat.cast_natAbs, Int.cast_abs]
  rw [hstride, abs_strideUnits (Nat.cast_nonneg _) (Nat.cast_nonneg _), hdistance,
    Int.abs_eq_natAbs]
  exact strideUnits_le hs.ratio_le hnormal

/-- The intercept for balanced values of opposite sign lies between the points. -/
theorem IsBalanced.between_intercept {s : TwoPoint} {x : Float} (hs : s.IsBalanced)
    (h : s.intercept = some x) (hsign : OppositeSigns s.older.y s.newer.y) :
    Between s.older.x s.newer.x x :=
  between_of_abs_stride_le h hsign (hs.abs_stride_le h hsign)

/-- Where an iteration goes on, the value and the gap are not below the tolerance.  So their
    product is not subnormal, if the square of the tolerance is twice the least normal number
    or more. -/
theorem isBalanced_of_criterion?_eq_none {s : TwoPoint} {t : Tolerance} {x : Float}
    (hgo : s.criterion? t = none) (h : s.intercept = some x)
    (ht : 2 ^ 53 * unitsPerOne ≤ (units t.bound : ℚ) ^ 2)
    (hratio : (units s.newer.y).natAbs ≤ 2 ^ 50 * (units s.older.y).natAbs) : s.IsBalanced := by
  obtain ⟨-, hgap, hy, -⟩ := finite_of_intercept h
  obtain ⟨⟨-, htnan⟩, hpos⟩ := lt_iff.1 t.pos
  rw [units_zero] at hpos
  obtain ⟨hresidual, hstep⟩ := criterion?_eq_none.1 hgo
  -- numbers that are not below the tolerance have at least as many units
  have hunits {y : Float} (hfin : y.isFinite = true) (hy : ¬ y.abs < t.bound) :
      (units t.bound : ℚ) ≤ |(units y : ℚ)| := by
    have hle := (le_iff.1 (le_of_not_lt ((isNaN_abs y).trans (isNaN_of_isFinite hfin)) htnan hy)).2
    rw [units_abs] at hle
    exact_mod_cast hle
  have hproduct : (2 : ℚ) ^ 53 ≤ |(units s.newer.y : ℚ) * units s.gap / unitsPerOne| := by
    rw [abs_div, abs_mul, abs_of_pos unitsPerOne_pos, le_div_iff₀ unitsPerOne_pos]
    calc 2 ^ 53 * unitsPerOne ≤ (units t.bound : ℚ) ^ 2 := ht
      _ = units t.bound * units t.bound := pow_two _
      _ ≤ |(units s.newer.y : ℚ)| * |(units s.gap : ℚ)| :=
          mul_le_mul (hunits hy hresidual) (hunits hgap hstep) (Int.cast_nonneg hpos.le)
            (abs_nonneg _)
  -- the bound itself is not rounded
  have hround : roundUnits (2 ^ 53) = 2 ^ 53 := by
    have hexact := roundUnits_mul_two_pow (m := 1) (k := 53) (by decide)
      (by rw [one_mul]; exact Nat.le_mul_of_pos_right _ (Nat.two_pow_pos _))
    rw [Nat.cast_one, one_mul, one_mul] at hexact
    exact hexact
  refine ⟨hratio, ?_⟩
  rw [(units_mul hy hgap).2, ← roundUnits_abs]
  have hmono := roundUnits_mono hproduct
  omega

end TwoPoint

/-- The computed distance between two numbers is at most that of numbers around them. -/
theorem abs_sub_le_of_between {a b c d : Float} (ha : a.isFinite = true) (hb : b.isFinite = true)
    (hc : Between a b c) (hd : Between a b d) : (d - c).abs ≤ (b - a).abs := by
  have hfinite {x : Float} (hx : Between a b x) : x.isFinite = true := by
    rcases hx with ⟨hax, hxb⟩ | ⟨hbx, hxa⟩
    · exact isFinite_of_between ha hb hax hxb
    · exact isFinite_of_between hb ha hbx hxa
  obtain ⟨hnan, hinner⟩ := units_sub (hfinite hd) (hfinite hc)
  obtain ⟨hnan', houter⟩ := units_sub hb ha
  rw [le_iff, isNaN_abs, isNaN_abs, units_abs, units_abs, hinner, houter]
  refine ⟨⟨hnan, hnan'⟩, abs_roundUnits_le ?_⟩
  rw [between_iff (isNaN_of_isFinite ha) (isNaN_of_isFinite hb)
    (isNaN_of_isFinite (hfinite hc))] at hc
  rw [between_iff (isNaN_of_isFinite ha) (isNaN_of_isFinite hb)
    (isNaN_of_isFinite (hfinite hd))] at hd
  -- the inner numbers are not farther apart than the outer ones
  have hle : |units d - units c| ≤ |units b - units a| := by
    rw [Int.abs_eq_natAbs, Int.abs_eq_natAbs]
    omega
  exact_mod_cast hle

end ScalarRoots
