import ScalarRoots.Proofs.Binary64.Arithmetic

/-!
# Negation

Changing the sign of a number changes its sign bit and nothing else; NaN has no sign.  The
arithmetic operations round magnitudes, so the signs of their operands decide on the sign of
the result alone.  A difference of two equal numbers is an exception: it is a positive zero
whichever way round they are subtracted.

The identities here are between numbers, not between what they stand for: they tell positive
from negative zeros.

## Key results

- `unpack_neg`: the parts of a negated number
- `neg_mul` / `mul_neg` / `neg_div` / `neg_div_neg`: signs of products and quotients
- `neg_sub_neg`: the difference of negated numbers, where it is not zero
- `abs_neg`, `isFinite_neg_self`, `signBit_neg` and their namesakes: what the tests say
-/

namespace ScalarRoots.Binary64

open Float.Model Float.Model.UnpackedFloat

/-! ## Parts -/

/-- The sign of a word is read from a bit that its other parts do not depend on. -/
private theorem unpack_packComponents_neg (s : Sign) (e : BitVec 11) (m : BitVec 52) :
    UnpackedFloat.unpack Format.binary64 (packComponents Format.binary64 (-s) e m) =
      (UnpackedFloat.unpack Format.binary64 (packComponents Format.binary64 s e m)).neg := by
  simp only [UnpackedFloat.unpack, unpackMantissa_packComponents, unpackExponent_packComponents,
    unpackSign_packComponents, Sign.ofBitVec_toBitVec]
  -- the exponent tells zeros, infinities and NaN from the rest
  split
  · split <;> rfl
  · split
    · split <;> rfl
    · rfl

/-- Negated parts are packed into a negated word, even if packing rounds them to an infinity. -/
theorem unpack_pack_neg (u : UnpackedFloat) :
    (Float.Model.pack u.neg).unpack = (Float.Model.pack u).unpack.neg := by
  cases u with
  | notANumber => rfl
  | infinity s => exact unpack_packComponents_neg s _ _
  | zero s => exact unpack_packComponents_neg s _ _
  | finite s m e hm =>
    show UnpackedFloat.unpack _ (UnpackedFloat.pack _ (.finite (-s) m e hm)) =
      (UnpackedFloat.unpack _ (UnpackedFloat.pack _ (.finite s m e hm))).neg
    simp only [UnpackedFloat.pack]
    -- what is too large is packed as an infinity of the same sign
    split
    · exact unpack_packComponents_neg s _ _
    · split <;> exact unpack_packComponents_neg s _ _

/-- The parts of a negated number are those of the number, but for the sign. -/
theorem unpack_neg (x : Float) : (-x).toModel.unpack = x.toModel.unpack.neg := by
  have h := unpack_pack_neg x.toModel.unpack
  rwa [pack_unpack] at h

/-- What is packed from negated parts is the negated number. -/
theorem neg_ofModel_pack (u : UnpackedFloat) :
    Float.ofModel (Float.Model.pack u.neg) = -Float.ofModel (Float.Model.pack u) :=
  ext_unpack ((unpack_pack_neg u).trans (unpack_neg _).symm)

/-! ## Rounding -/

/-- Rounding to even looks at the magnitude alone. -/
theorem roundWithAccuracy_neg (s : Sign) (m : ℕ) (e : ℤ) (a : Accuracy) :
    roundWithAccuracy Format.binary64 (-s) m e a =
      (roundWithAccuracy Format.binary64 s m e a).neg := by
  simp only [roundWithAccuracy]
  -- the sign is carried along, in an overflow too
  split <;> rfl

/-- So a number without a remainder is rounded alike, whatever its sign. -/
theorem round_neg (s : Sign) (m : ℕ) (e : ℤ) :
    round Format.binary64 (-s) m e = (round Format.binary64 s m e).neg :=
  roundWithAccuracy_neg ..

/-- A rounded number that is not zero changes its sign with the number. -/
theorem normalize_neg {m : ℤ} (hm : m ≠ 0) (e : ℤ) (zeroSign : Sign) :
    UnpackedFloat.normalize Format.binary64 (-m) e zeroSign =
      (UnpackedFloat.normalize Format.binary64 m e zeroSign).neg := by
  -- the sign of the integer decides which of the two is rounded
  rcases lt_or_gt_of_ne hm with hlt | hgt
  · have hgt : compare (-m) 0 = .gt := compare_gt_iff_gt.2 (neg_pos.2 hlt)
    simp only [UnpackedFloat.normalize, hgt, compare_lt_iff_lt.2 hlt]
    exact round_neg .negative _ _
  · have hlt : compare (-m) 0 = .lt := compare_lt_iff_lt.2 (neg_lt_zero.2 hgt)
    simp only [UnpackedFloat.normalize, hlt, compare_gt_iff_gt.2 hgt, neg_neg]
    exact round_neg .positive _ _

/-! ## Operations on parts -/

/-- Signs multiply like those of numbers. -/
private theorem sign_mul_neg (s s' : Sign) : s * -s' = -(s * s') := by
  cases s <;> cases s' <;> rfl

/-- The same for the sign on the left. -/
private theorem sign_neg_mul (s s' : Sign) : -s * s' = -(s * s') := by
  cases s <;> cases s' <;> rfl

/-- The sign of the dividend is passed on. -/
private theorem sign_neg_div (s s' : Sign) : -s / s' = -(s / s') := by
  cases s <;> cases s' <;> rfl

/-- Two signs cancel. -/
private theorem sign_neg_div_neg (s s' : Sign) : -s / -s' = s / s' := by
  cases s <;> cases s' <;> rfl

/-- A product changes its sign with its second factor, in all combinations of parts. -/
private theorem mul_neg_unpacked (a b : UnpackedFloat) :
    mul Format.binary64 a b.neg = (mul Format.binary64 a b).neg := by
  -- sixteen combinations of parts; the sign is that of the product in each of them
  rcases a with s | _ | s | ⟨s, m, e, hm⟩ <;> rcases b with s' | _ | s' | ⟨s', m', e', hm'⟩ <;>
    simp only [UnpackedFloat.mul, UnpackedFloat.neg, sign_mul_neg, roundWithAccuracy_neg]

/-- A product changes its sign with its first factor. -/
private theorem neg_mul_unpacked (a b : UnpackedFloat) :
    mul Format.binary64 a.neg b = (mul Format.binary64 a b).neg := by
  rcases a with s | _ | s | ⟨s, m, e, hm⟩ <;> rcases b with s' | _ | s' | ⟨s', m', e', hm'⟩ <;>
    simp only [UnpackedFloat.mul, UnpackedFloat.neg, sign_neg_mul, roundWithAccuracy_neg]

/-- A quotient changes its sign with the dividend. -/
private theorem neg_div_unpacked (a b : UnpackedFloat) :
    div Format.binary64 a.neg b = (div Format.binary64 a b).neg := by
  rcases a with s | _ | s | ⟨s, m, e, hm⟩ <;> rcases b with s' | _ | s' | ⟨s', m', e', hm'⟩ <;>
    simp only [UnpackedFloat.div, UnpackedFloat.neg, sign_neg_div, roundWithAccuracy_neg]

/-- A quotient stays the same when both of its parts change their signs. -/
private theorem neg_div_neg_unpacked (a b : UnpackedFloat) :
    div Format.binary64 a.neg b.neg = div Format.binary64 a b := by
  rcases a with s | _ | s | ⟨s, m, e, hm⟩ <;> rcases b with s' | _ | s' | ⟨s', m', e', hm'⟩ <;>
    simp only [UnpackedFloat.div, UnpackedFloat.neg, sign_neg_div_neg]

/-- The difference of two finite numbers is zero or changes its sign with them. -/
private theorem neg_sub_neg_unpacked {a b : UnpackedFloat}
    (h : ∀ s, sub Format.binary64 a b ≠ .zero s) :
    sub Format.binary64 a.neg b.neg = (sub Format.binary64 a b).neg := by
  rcases a with s | _ | s | ⟨s, m, e, hm⟩ <;> rcases b with s' | _ | s' | ⟨s', m', e', hm'⟩ <;>
    try rfl
  · -- two infinities: the difference is NaN, or an infinity with the sign of the first
    cases s <;> cases s' <;> rfl
  · -- two zeros have a zero for their difference, which is excluded
    cases s <;> cases s' <;> exact absurd rfl (h _)
  · -- two finite numbers are subtracted as integers, with the smaller exponent
    simp only [UnpackedFloat.sub, UnpackedFloat.neg, apply_neg, neg_sub_neg] at h ⊢
    rw [← neg_sub]
    refine normalize_neg (fun hzero => h .positive ?_) _ _
    rw [hzero]
    rfl

/-! ## Operations -/

/-- Negation undoes itself, for zeros and NaN as well. -/
protected theorem neg_neg (x : Float) : - -x = x := by
  refine ext_unpack ?_
  rw [unpack_neg, unpack_neg]
  -- a sign that is turned over twice is back where it was
  cases x.toModel.unpack with
  | notANumber => rfl
  | infinity s => cases s <;> rfl
  | zero s => cases s <;> rfl
  | finite s m e hm => cases s <;> rfl

/-- A product changes its sign with its second factor. -/
protected theorem mul_neg (x y : Float) : x * -y = -(x * y) := by
  show Float.ofModel (Float.Model.pack (mul _ x.toModel.unpack (-y).toModel.unpack)) = _
  rw [unpack_neg, mul_neg_unpacked]
  exact neg_ofModel_pack _

/-- A product also changes its sign with its first factor. -/
protected theorem neg_mul (x y : Float) : -x * y = -(x * y) := by
  show Float.ofModel (Float.Model.pack (mul _ (-x).toModel.unpack y.toModel.unpack)) = _
  rw [unpack_neg, neg_mul_unpacked]
  exact neg_ofModel_pack _

/-- A quotient changes its sign with the dividend. -/
protected theorem neg_div (x y : Float) : -x / y = -(x / y) := by
  show Float.ofModel (Float.Model.pack (div _ (-x).toModel.unpack y.toModel.unpack)) = _
  rw [unpack_neg, neg_div_unpacked]
  exact neg_ofModel_pack _

/-- It stays the same when dividend and divisor both change theirs. -/
protected theorem neg_div_neg (x y : Float) : -x / -y = x / y := by
  show Float.ofModel (Float.Model.pack (div _ (-x).toModel.unpack (-y).toModel.unpack)) = _
  rw [unpack_neg, unpack_neg, neg_div_neg_unpacked]
  rfl

/-! ## Tests -/

/-- A number is finite when its negation is. -/
@[simp] theorem isFinite_neg_self (x : Float) : (-x).isFinite = x.isFinite := by
  show (-x).toModel.unpack.isFinite = _
  rw [unpack_neg, isFinite_neg]
  rfl

/-- A negated NaN is a NaN, and nothing else becomes one. -/
@[simp] theorem isNaN_neg (x : Float) : (-x).isNaN = x.isNaN := by
  show (-x).toModel.unpack.isNaN = x.toModel.unpack.isNaN
  rw [unpack_neg]
  cases x.toModel.unpack <;> rfl

/-- In units, negation is that of the integers. -/
@[simp] theorem units_neg (x : Float) : units (-x) = -units x := by
  rw [units, unpack_neg, unitsOf_neg]
  rfl

/-- A number equals zero when its negation does. -/
@[simp] theorem neg_beq_zero (x : Float) : (-x == 0) = (x == 0) := by
  rw [Bool.eq_iff_iff, beq_iff, beq_iff, isNaN_neg, units_zero, units_neg, neg_eq_zero]

/-- Negation does not change the magnitude. -/
@[simp] protected theorem abs_neg (x : Float) : (-x).abs = x.abs := by
  refine ext_unpack ?_
  rw [unpack_abs, unpack_abs, unpack_neg]
  cases x.toModel.unpack <;> rfl

/-- Every number but NaN has its sign bit turned over. -/
theorem signBit_neg {x : Float} (h : x.isNaN = false) : signBit (-x) = !signBit x := by
  have hx := sign?_unpack h
  have hneg := sign?_unpack ((isNaN_neg x).trans h)
  have hsign : sign? (-x).toModel.unpack = (sign? x.toModel.unpack).map (- ·) := by
    rw [unpack_neg]
    cases x.toModel.unpack <;> rfl
  rw [hneg, hx] at hsign
  -- the four combinations of bits, two of which contradict the parts
  cases hs : signBit x <;> cases hs' : signBit (-x) <;> rw [hs, hs'] at hsign <;>
    first | rfl | cases hsign

/-! ## Differences -/

/-- A difference that is not zero changes its sign with the two numbers. -/
protected theorem neg_sub_neg {x y : Float} (h : (x - y == 0) = false) :
    -x - -y = -(x - y) := by
  show Float.ofModel (Float.Model.pack (sub _ (-x).toModel.unpack (-y).toModel.unpack)) = _
  rw [unpack_neg, unpack_neg, neg_sub_neg_unpacked]
  · exact neg_ofModel_pack _
  · intro s hs
    -- parts of a zero are packed into a zero
    have hzero : (x - y).toModel.unpack = .zero s := by
      show (Float.Model.pack (sub _ x.toModel.unpack y.toModel.unpack)).unpack = _
      rw [hs, unpack_pack (u := .zero s) trivial]
    exact Bool.false_ne_true (h ▸ beq_zero_eq_true.2 ⟨s, hzero⟩)

/-- It is zero when the difference of the negated numbers is. -/
theorem neg_sub_neg_beq_zero (x y : Float) : (-x - -y == 0) = (x - y == 0) := by
  have hback : ∀ {x y : Float}, (x - y == 0) = false → (-x - -y == 0) = false := by
    intro x y h
    rw [Binary64.neg_sub_neg h, neg_beq_zero]
    exact h
  -- the other direction is the same with the negated numbers
  cases h : (x - y == 0) with
  | false => exact hback h
  | true =>
    by_contra hne
    have hfalse := hback (Bool.eq_false_iff.2 hne)
    rw [Binary64.neg_neg, Binary64.neg_neg, h] at hfalse
    cases hfalse

end ScalarRoots.Binary64
