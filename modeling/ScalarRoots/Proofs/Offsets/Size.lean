import ScalarRoots.Proofs.Binary64.Whole
import ScalarRoots.Proofs.Offsets

/-!
# How large offsets are

A pseudo-random offset is the scale times a factor, which is one minus a number from zero up to
one.  So it is at most the scale, and it is not negative.  That it is not zero either takes more
than that the factor is not zero, as the product may underflow; it does not when the scale is
larger than the least normal number.

## Key results

- `units_add_lastPlace_le`: numbers below one
- `Generator.factor_bounds`: the factors
- `Offsets.WithinScale`: what is known of a pseudo-random offset
- `Offsets.withinScale_nth`: the offsets of a stream are of this kind
- `Offsets.isFinite_nth`: offsets that were checked are finite
- `Offsets.exists_scale_of_nth_beq_zero`: which of them are zero
-/

namespace ScalarRoots

open Binary64

/-! ## Below one -/

/-- The distance from one to the number before it. -/
def lastPlace : Float := Float.ofBits 0x3ca0000000000000

/-- Which power of two the last place below one is, counted in units. -/
def lastPlaceExponent : ℕ := 1021

/-- This distance is a power of two. -/
theorem units_lastPlace : units lastPlace = (2 ^ lastPlaceExponent : ℕ) := by decide +kernel

/-- One is as many places above it as a significand has. -/
theorem units_one : units 1 = (2 ^ (53 + lastPlaceExponent) : ℕ) := by decide +kernel

/-- The units of one, as a number and as a fraction. -/
theorem unitsPerOne_eq : unitsPerOne = units 1 := by
  have hexp : (-leastExponent) = ((53 + lastPlaceExponent : ℕ) : ℤ) := rfl
  rw [units_one, unitsPerOne, hexp, zpow_natCast, Int.cast_natCast, Nat.cast_pow, Nat.cast_ofNat]

/-- Below a power of two, fifty-three binary places leave a gap of the last of them. -/
private theorem mul_two_pow_add_le {m k n : ℕ} (hm : m < 2 ^ 53) (hlead : 2 ^ 52 ≤ m ∨ k = 0)
    (hlt : m * 2 ^ k < 2 ^ (53 + n)) : m * 2 ^ k + 2 ^ n ≤ 2 ^ (53 + n) := by
  rcases le_or_gt k n with hle | hgt
  · -- the places of the number are at least as fine as the last one
    calc m * 2 ^ k + 2 ^ n ≤ m * 2 ^ n + 2 ^ n :=
          Nat.add_le_add_right (Nat.mul_le_mul_left _ (Nat.pow_le_pow_right (by decide) hle)) _
      _ = (m + 1) * 2 ^ n := by ring
      _ ≤ 2 ^ 53 * 2 ^ n := Nat.mul_le_mul_right _ hm
      _ = 2 ^ (53 + n) := (pow_add 2 53 n).symm
  · -- they are coarser, so the leading one is used, and the number is too large
    have hnormal : 2 ^ 52 ≤ m := hlead.resolve_right (by omega)
    have hlarge : 2 ^ (53 + n) ≤ m * 2 ^ k :=
      calc 2 ^ (53 + n) = 2 ^ 52 * 2 ^ (n + 1) := by ring
        _ ≤ m * 2 ^ k := Nat.mul_le_mul hnormal (Nat.pow_le_pow_right (by decide) hgt)
    exact absurd hlt (not_lt.2 hlarge)

/-- A number below one is at least the last place below it. -/
theorem units_add_lastPlace_le {x : Float} (h : x < 1) : units x + units lastPlace ≤ units 1 := by
  obtain ⟨⟨hnan, -⟩, hlt⟩ := lt_iff.1 h
  have hcanonical := isCanonical_unpack x.toModel
  -- what is not positive is below by far
  have hneg (h : units x ≤ 0) : units x + units lastPlace ≤ units 1 :=
    (add_le_add_left h _).trans (by decide +kernel)
  unfold units at hlt hneg
  cases hu : x.toModel.unpack with
  | notANumber => exact hneg (by rw [hu]; exact le_rfl)
  | zero s => exact hneg (by rw [hu]; exact le_rfl)
  | infinity s =>
    cases s with
    | negative => exact hneg (by rw [hu]; exact neg_nonpos.2 (Int.natCast_nonneg _))
    | positive =>
      rw [hu] at hlt
      exact absurd hlt (by decide +kernel)
  | finite s m e hm =>
    cases s with
    | negative => exact hneg (by rw [hu]; exact neg_nonpos.2 (Int.natCast_nonneg _))
    -- a positive number has fifty-three places below one
    | positive =>
      rw [hu] at hcanonical
      obtain ⟨hbits, -, -, hlead⟩ := hcanonical
      have hunits : units x = (m * 2 ^ (e - leastExponent).toNat : ℕ) := by rw [units, hu]; rfl
      rw [show unitsOf x.toModel.unpack = units x from rfl,
        show unitsOf (1 : Float).toModel.unpack = units 1 from rfl, hunits, units_one] at hlt
      rw [hunits, units_one, units_lastPlace]
      refine Int.ofNat_le.2 (mul_two_pow_add_le hbits (hlead.imp_right fun he => ?_)
        (Int.ofNat_lt.1 hlt))
      rw [he, sub_self]
      rfl

/-! ## Factors -/

/-- A word is a finite number that is not negative. -/
theorem isFinite_toFloat (n : UInt64) : n.toFloat.isFinite = true ∧ 0 ≤ units n.toFloat := by
  obtain ⟨hfin, hclose⟩ := isClosest_toFloat n
  have hnonneg : (0 : ℚ) ≤ units n.toFloat := by
    rw [units_eq_toRat_mul]
    exact mul_nonneg (hclose.nonneg (Nat.cast_nonneg _)) unitsPerOne_pos.le
  exact ⟨hfin, by exact_mod_cast hnonneg⟩

namespace Generator

/-- A fraction drawn from a word is not negative. -/
theorem units_fraction_nonneg (word : UInt64) : 0 ≤ units (fraction word) := by
  obtain ⟨hfin, hnonneg⟩ := isFinite_toFloat (word >>> 1)
  have hpos : 0 < units 9223372036854775808 := by decide +kernel
  obtain ⟨-, hunits⟩ := units_div hfin (y := 9223372036854775808) (by decide) hpos.ne'
  rw [fraction, hunits]
  refine roundUnits_nonneg (div_nonneg (mul_nonneg ?_ unitsPerOne_pos.le) ?_)
  · exact_mod_cast hnonneg
  · exact_mod_cast hpos.le

/-- Nor is what is drawn after some words have been rejected. -/
theorem units_uniformWithin_nonneg (fuel : Nat) (g : Generator) :
    0 ≤ units (uniformWithin fuel g).1 := by
  -- Induction on the fuel; every number drawn is a fraction, or the zero at the end.
  induction fuel generalizing g with
  | zero => exact units_zero.ge
  | succ fuel ih =>
    simp only [uniformWithin]
    split
    · exact units_fraction_nonneg _
    · exact ih _

/-- So numbers drawn are not negative. -/
theorem units_uniform_nonneg (g : Generator) : 0 ≤ units g.uniform.1 :=
  units_uniformWithin_nonneg ..

/-- A number drawn is finite, as it lies from zero up to one. -/
theorem isFinite_uniform (g : Generator) : g.uniform.1.isFinite = true := by
  have hlt := g.uniform_lt_one
  refine isFinite_of_between (a := 0) (b := 1) (by decide) (by decide) (le_iff.2 ⟨?_, ?_⟩)
    (le_of_lt hlt)
  · exact ⟨by decide, (lt_iff.1 hlt).1.1⟩
  · rw [units_zero]
    exact g.units_uniform_nonneg

/-- The factor is at least the last place below one, and at most one. -/
theorem factor_bounds (g : Generator) :
    (1 - g.uniform.1).isFinite = true ∧ units lastPlace ≤ units (1 - g.uniform.1) ∧
      units (1 - g.uniform.1) ≤ units 1 := by
  have hfin := g.isFinite_uniform
  have hone : (1 : Float).isFinite = true := by decide
  obtain ⟨hnan, hunits⟩ := units_sub hone hfin
  have hgap : units lastPlace ≤ units 1 - units g.uniform.1 := by
    have := units_add_lastPlace_le g.uniform_lt_one
    omega
  have hle : units 1 - units g.uniform.1 ≤ units 1 := by
    have := g.units_uniform_nonneg
    omega
  rw [← Int.cast_sub] at hunits
  -- rounding does not leave the range that the exact difference is in
  have hlow : units lastPlace ≤ units (1 - g.uniform.1) := by
    rw [hunits]
    exact units_le_roundUnits (by decide +kernel) (Int.cast_le.2 hgap)
  have hhigh : units (1 - g.uniform.1) ≤ units 1 := by
    rw [hunits]
    exact roundUnits_le_units hone (Int.cast_le.2 hle)
  refine ⟨isFinite_iff.2 ⟨hnan, ?_⟩, hlow, hhigh⟩
  have hpos : 0 ≤ units lastPlace := by decide +kernel
  rw [abs_of_nonneg (hpos.trans hlow)]
  exact hhigh.trans_lt ((le_abs_self _).trans_lt (isFinite_iff.1 hone).2)

end Generator

/-! ## Offsets -/

/-- More than half of a unit is not rounded to zero. -/
theorem roundUnits_pos {q : ℚ} (h : 1 / 2 < q) : 0 < roundUnits q := by
  have hinf : 0 < infinityUnits := Nat.mul_pos (Nat.two_pow_pos _) (Nat.two_pow_pos _)
  -- up to one unit, magnitudes are rounded to whole units
  have hp : 1 / 2 < min q 1 := lt_min h (by norm_num)
  have hnonneg : 0 ≤ min q 1 := (by norm_num : (0 : ℚ) ≤ 1 / 2).trans hp.le
  have hlt : min q 1 < 2 ^ 53 := (min_le_right q 1).trans_lt (by norm_num)
  have herror := (abs_le.1 (abs_nearestEven_sub_le hnonneg)).1
  -- a half and more is not nearest to zero
  have hpos : 0 < nearestEven (min q 1) := by
    have hcast : (0 : ℚ) < nearestEven (min q 1) := by linarith
    exact_mod_cast hcast
  have hmin : 0 < roundUnits (min q 1) := by
    rw [roundUnits_of_nonneg hnonneg, roundMagnitude_of_lt hnonneg hlt]
    exact Int.natCast_pos.2 (lt_min hpos hinf)
  exact hmin.trans_le (roundUnits_mono (min_le_left q 1))

namespace Offsets

/-- An offset is not negative and at most as large as the scale, and it is not zero if the scale
    is larger than the least normal number. -/
structure WithinScale (scale o : Float) : Prop where
  finite : o.isFinite = true
  nonneg : 0 ≤ o
  le : o ≤ scale
  pos : 2 ^ (-1022 : ℤ) < toRat scale → 0 < o

/-- A scale above the least normal number has more than half of a unit in the last place of the
    factor. -/
private theorem half_lt_mul {scale factor : Float} (hscale : 2 ^ (-1022 : ℤ) < toRat scale)
    (hfactor : units lastPlace ≤ units factor) :
    1 / 2 < (units scale : ℚ) * units factor / unitsPerOne := by
  -- the last place below one, as a fraction
  have hplace : toRat lastPlace = 2 ^ (-53 : ℤ) := by
    have hexp : (2 : ℚ) ^ (53 + lastPlaceExponent) = 2 ^ lastPlaceExponent * 2 ^ 53 := by
      rw [add_comm, pow_add]
    rw [toRat, unitsPerOne_eq, units_one, units_lastPlace, Int.cast_natCast, Int.cast_natCast,
      Nat.cast_pow, Nat.cast_pow, Nat.cast_ofNat, hexp, div_mul_cancel_left₀ (by positivity)]
    simp only [zpow_neg, zpow_ofNat]
  have hle : toRat lastPlace ≤ toRat factor :=
    div_le_div_of_nonneg_right (Int.cast_le.2 hfactor) unitsPerOne_pos.le
  have hpos : (0 : ℚ) < 2 ^ (-53 : ℤ) := by positivity
  calc (1 : ℚ) / 2 = 2 ^ (-1022 : ℤ) * 2 ^ (-53 : ℤ) * unitsPerOne := by
        have hexp : -1022 + -53 + -leastExponent = -1 := rfl
        rw [unitsPerOne, ← zpow_add₀ two_ne_zero, ← zpow_add₀ two_ne_zero, hexp, zpow_neg_one,
          one_div]
    _ < toRat scale * 2 ^ (-53 : ℤ) * unitsPerOne :=
        mul_lt_mul_of_pos_right (mul_lt_mul_of_pos_right hscale hpos) unitsPerOne_pos
    _ ≤ toRat scale * toRat factor * unitsPerOne := by
        refine mul_le_mul_of_nonneg_right (mul_le_mul_of_nonneg_left (hplace ▸ hle) ?_)
          unitsPerOne_pos.le
        exact (zpow_pos two_pos (-1022)).le.trans hscale.le
    _ = (units scale : ℚ) * units factor / unitsPerOne := by
        rw [units_eq_toRat_mul scale, units_eq_toRat_mul factor]
        field_simp

/-- Drawing with any source of numbers from zero up to one.  The one that is used has fuel for
    all the words, so it is not to be unfolded. -/
private def Stream.drawWith (uniform : Generator → Float × Generator) : Stream → Float × Stream
  | .seeded g scale =>
    let (u, g) := uniform g
    (scale * (1 - u), .seeded g scale)
  | .alternating next other => (next, .alternating other next)

/-- A draw is a scaled factor, and the rest of the stream has the same scale. -/
private theorem Stream.drawWith_seeded (uniform : Generator → Float × Generator) (g : Generator)
    (scale : Float) : drawWith uniform (.seeded g scale) =
      (scale * (1 - (uniform g).1), .seeded (uniform g).2 scale) := rfl

/-- The same with the source that is used. -/
theorem Stream.draw_seeded (g : Generator) (scale : Float) :
    draw (.seeded g scale) = (scale * (1 - g.uniform.1), .seeded g.uniform.2 scale) := by
  have hdraw : draw = drawWith Generator.uniform := rfl
  rw [hdraw, drawWith_seeded]

/-- A scale times a factor is within the scale. -/
theorem withinScale_mul {scale factor : Float} (hfin : scale.isFinite = true) (hpos : 0 < scale)
    (hfactor : factor.isFinite = true) (hlow : units lastPlace ≤ units factor)
    (hhigh : units factor ≤ units 1) : WithinScale scale (scale * factor) := by
  obtain ⟨hnan, hunits⟩ := units_mul hfin hfactor
  have hscale : 0 < units scale := by
    have := (lt_iff.1 hpos).2
    rwa [units_zero] at this
  have hnonneg : 0 ≤ units factor := le_trans (by decide +kernel) hlow
  -- the exact product is from zero up to the scale, and rounding does not leave this range
  have hexact : (0 : ℚ) ≤ units scale * units factor / unitsPerOne :=
    div_nonneg (mul_nonneg (by exact_mod_cast hscale.le) (by exact_mod_cast hnonneg))
      unitsPerOne_pos.le
  have hle : (units scale : ℚ) * units factor / unitsPerOne ≤ units scale := by
    rw [div_le_iff₀ unitsPerOne_pos, unitsPerOne_eq]
    exact mul_le_mul_of_nonneg_left (Int.cast_le.2 hhigh) (by exact_mod_cast hscale.le)
  have hlower : (0 : Float) ≤ scale * factor := by
    refine le_iff.2 ⟨⟨by decide, hnan⟩, ?_⟩
    rw [units_zero, hunits]
    exact roundUnits_nonneg hexact
  have hupper : scale * factor ≤ scale := by
    refine le_iff.2 ⟨⟨hnan, isNaN_of_isFinite hfin⟩, ?_⟩
    rw [hunits]
    exact roundUnits_le_units hfin hle
  refine ⟨isFinite_of_between (by decide) hfin hlower hupper, hlower, hupper, fun hnormal => ?_⟩
  -- it may be rounded to zero, but not if it is more than half of a unit
  refine lt_iff.2 ⟨⟨by decide, hnan⟩, ?_⟩
  rw [units_zero, hunits]
  exact roundUnits_pos (half_lt_mul hnormal hlow)

/-- A pseudo-random offset is within the scale. -/
theorem Stream.withinScale_draw (g : Generator) {scale : Float} (hfin : scale.isFinite = true)
    (hpos : 0 < scale) : WithinScale scale (draw (.seeded g scale)).1 := by
  obtain ⟨hfactor, hlow, hhigh⟩ := g.factor_bounds
  rw [draw_seeded]
  exact withinScale_mul hfin hpos hfactor hlow hhigh

/-- Every part of a stream of pseudo-random offsets is one, with the same scale. -/
theorem Stream.drop_seeded (i : Nat) (g : Generator) (scale : Float) :
    ∃ g', drop i (.seeded g scale) = .seeded g' scale := by
  induction i generalizing g with
  | zero => exact ⟨g, rfl⟩
  | succ i ih =>
    rw [drop, draw_seeded]
    exact ih _

/-- So is the offset with any number. -/
theorem withinScale_nth (seed : UInt64) {scale : Float} (hfin : scale.isFinite = true)
    (hpos : 0 < scale) (i : Nat) : WithinScale scale ((seeded seed scale).nth i) := by
  obtain ⟨g, hg⟩ := Stream.drop_seeded i ⟨seed⟩ scale
  rw [nth, stream, hg]
  exact Stream.withinScale_draw g hfin hpos

/-- Offsets that were checked are finite. -/
theorem isFinite_nth {o : Offsets} (h : o.isValid = true) (i : Nat) :
    (o.nth i).isFinite = true := by
  cases o with
  | seeded seed scale =>
    obtain ⟨hfin, hpos⟩ := Bool.and_eq_true_iff.1 h
    exact (withinScale_nth seed hfin (decide_eq_true_iff.1 hpos) i).finite
  -- two fixed offsets that were checked take turns
  | alternating first second =>
    simp only [isValid, Bool.and_eq_true] at h
    rw [nth_alternating]
    split
    · exact h.1.1.1
    · exact h.1.2

/-- Only pseudo-random offsets are zero, with a scale that is at most the least normal number. -/
theorem exists_scale_of_nth_beq_zero {o : Offsets} (h : o.isValid = true) {i : Nat}
    (hzero : (o.nth i == 0) = true) :
    ∃ seed scale, o = seeded seed scale ∧ toRat scale ≤ 2 ^ (-1022 : ℤ) := by
  cases o with
  | seeded seed scale =>
    obtain ⟨hfin, hpos⟩ := Bool.and_eq_true_iff.1 h
    refine ⟨seed, scale, rfl, not_lt.1 fun hnormal => ?_⟩
    have hlt := (withinScale_nth seed hfin (decide_eq_true_iff.1 hpos) i).pos hnormal
    exact (lt_iff.1 hlt).2.ne' (beq_iff.1 hzero).2
  -- fixed offsets were checked not to be zero
  | alternating first second =>
    simp only [isValid, bne, Bool.and_eq_true, Bool.not_eq_true'] at h
    obtain ⟨⟨⟨-, hfirst⟩, -⟩, hsecond⟩ := h
    rw [nth_alternating] at hzero
    split at hzero
    · exact absurd hzero (Bool.eq_false_iff.1 hfirst)
    · exact absurd hzero (Bool.eq_false_iff.1 hsecond)

end Offsets

end ScalarRoots
