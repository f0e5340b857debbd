import ScalarRoots.Proofs.Binary64.Range

/-!
# Operations on zeros

There are two zeros, which are equal to each other.  A product with a zero is a zero unless the
other factor is infinite, and so is a zero divided by anything but a zero or NaN.  Subtracting a
zero leaves a number what it is; the one exception is the negative zero, which may turn into the
positive one.

## Key results

- `sub_of_beq_zero`: what subtracting a zero does
- `isFinite_sub_of_beq_zero` / `sub_beq_of_beq_zero`: numerically nothing
- `sub_ne_negative_zero`: a difference of numbers that are not zero is no negative zero
- `mul_beq_zero` / `div_beq_zero`: products and quotients
- `not_beq_zero_of_isFinite_div`: a finite quotient is not divided by zero
-/

namespace ScalarRoots.Binary64

open Float.Model Float.Model.UnpackedFloat

variable {x y z : Float}

/-! ## Differences -/

/-- What is packed from the parts of a number is the number. -/
private theorem eq_of_pack {u : UnpackedFloat} (h : u = x.toModel.unpack) :
    Float.ofModel (Float.Model.pack u) = x := by
  rw [h, pack_unpack]

/-- A zero is packed and unpacked without loss. -/
private theorem toModel_pack_unpack {u : UnpackedFloat} {s : Sign} (h : u = .zero s) :
    (Float.Model.pack u).unpack = .zero s := by
  rw [h, unpack_pack (u := .zero s) trivial]

/-- Subtracting a zero changes at most a negative zero. -/
theorem sub_of_beq_zero (hz : (z == 0) = true) (hx : x.toModel.unpack ≠ .zero .negative) :
    x - z = x := by
  obtain ⟨s, hs⟩ := beq_zero_eq_true.1 hz
  refine eq_of_pack ?_
  rw [hs]
  -- by the class of the number; the sign of the zero matters only if it is a zero itself
  cases hu : x.toModel.unpack with
  | zero s' =>
    cases s' with
    | negative => exact absurd hu hx
    | positive => cases s <;> rfl
  | _ => rfl

/-- And that only into the other zero. -/
theorem sub_beq_zero_of_beq_zero (hz : (z == 0) = true) (hx : (x == 0) = true) :
    (x - z == 0) = true := by
  obtain ⟨s, hs⟩ := beq_zero_eq_true.1 hz
  obtain ⟨s', hs'⟩ := beq_zero_eq_true.1 hx
  have hsub : ∃ t, sub Format.binary64 x.toModel.unpack z.toModel.unpack = .zero t := by
    rw [hs, hs']
    cases s <;> cases s' <;> exact ⟨_, rfl⟩
  obtain ⟨t, ht⟩ := hsub
  exact beq_zero_eq_true.2 ⟨t, toModel_pack_unpack ht⟩

/-- What is not equal to zero is not the negative zero. -/
theorem ne_negative_zero (hx : (x == 0) = false) : x.toModel.unpack ≠ .zero .negative :=
  fun h => Bool.false_ne_true (hx ▸ beq_zero_eq_true.2 ⟨_, h⟩)

/-- Both zeros are finite. -/
theorem isFinite_of_beq_zero (hx : (x == 0) = true) : x.isFinite = true := by
  obtain ⟨s, hs⟩ := beq_zero_eq_true.1 hx
  show x.toModel.unpack.isFinite = true
  rw [hs]
  rfl

/-- Subtracting a zero does not make a number finite or infinite. -/
theorem isFinite_sub_of_beq_zero (hz : (z == 0) = true) : (x - z).isFinite = x.isFinite := by
  cases hx : (x == 0) with
  | false => rw [sub_of_beq_zero hz (ne_negative_zero hx)]
  | true =>
    rw [isFinite_of_beq_zero hx, isFinite_of_beq_zero (sub_beq_zero_of_beq_zero hz hx)]

/-- Equal numbers that are not zero are the same. -/
theorem eq_of_beq (h : (x == y) = true) (hy : (y == 0) = false) : x = y := by
  have hbeq : x.toModel.unpack.beq y.toModel.unpack = true := h
  rw [beq_iff_ne_notANumber_and_eq] at hbeq
  obtain ⟨-, -, hsame | ⟨-, hzero⟩ | ⟨-, hzero⟩⟩ := hbeq
  · exact ext_unpack hsame
  · exact absurd (beq_zero_eq_true.2 ⟨_, hzero⟩) (Bool.eq_false_iff.1 hy)
  · exact absurd (beq_zero_eq_true.2 ⟨_, hzero⟩) (Bool.eq_false_iff.1 hy)

/-- Finite numbers, not both of them zeros, differ by a negative zero at no time. -/
theorem sub_ne_negative_zero (hx : x.isFinite = true) (hy : y.isFinite = true)
    (hne : (y == 0) = false) : (x - y).toModel.unpack ≠ .zero .negative := by
  intro h
  have hbeq := beq_of_sub_beq_zero hx hy (beq_zero_eq_true.2 ⟨_, h⟩)
  obtain rfl := eq_of_beq hbeq hne
  -- a number minus itself is a positive zero
  have hself : sub Format.binary64 x.toModel.unpack x.toModel.unpack = .zero .positive := by
    simp only [Float.isFinite, Float.Model.isFinite] at hx
    cases hu : x.toModel.unpack with
    | infinity s =>
      rw [hu] at hx
      cases hx
    | notANumber =>
      rw [hu] at hx
      cases hx
    | zero s => cases s <;> rfl
    | finite s m e hm =>
      simp only [UnpackedFloat.sub, sub_self]
      rfl
  have hpositive : (x - x).toModel.unpack = .zero .positive := toModel_pack_unpack hself
  rw [h] at hpositive
  cases hpositive

/-! ## Products -/

/-- A finite number times zero is zero. -/
theorem mul_beq_zero (hx : x.isFinite = true) (hz : (z == 0) = true) : (x * z == 0) = true := by
  obtain ⟨hnan, hunits⟩ := units_mul hx (isFinite_of_beq_zero hz)
  have hzero := (beq_iff.1 hz).2
  rw [units_zero] at hzero
  -- the exact product is zero, and it is rounded to zero
  rw [hzero, Int.cast_zero, mul_zero, zero_div, roundUnits_zero] at hunits
  exact beq_iff.2 ⟨⟨hnan, by decide +kernel⟩, hunits.trans units_zero.symm⟩

/-- What is neither NaN nor finite is an infinity. -/
theorem exists_unpack_eq_infinity (hnan : x.isNaN = false) (hfin : x.isFinite = false) :
    ∃ s, x.toModel.unpack = .infinity s := by
  simp only [Float.isFinite, Float.isNaN, Float.Model.isFinite, Float.Model.isNaN] at hnan hfin
  cases hu : x.toModel.unpack with
  | infinity s => exact ⟨s, rfl⟩
  | notANumber =>
    rw [hu] at hnan
    cases hnan
  | _ =>
    rw [hu] at hfin
    cases hfin

/-- A product with a finite number that is not zero is NaN only if the other factor is. -/
theorem isNaN_mul (hx : x.isNaN = false) (hy : y.isFinite = true) (hne : (y == 0) = false) :
    (x * y).isNaN = false := by
  cases hfin : x.isFinite with
  | true => exact (units_mul hfin hy).1
  | false =>
    -- an infinity stays one
    obtain ⟨s, hs⟩ := exists_unpack_eq_infinity hx hfin
    have hmul : ∃ t, mul Format.binary64 x.toModel.unpack y.toModel.unpack = .infinity t := by
      simp only [Float.isFinite, Float.Model.isFinite] at hy
      rw [hs]
      cases hv : y.toModel.unpack with
      | notANumber =>
        rw [hv] at hy
        cases hy
      | zero s' => exact absurd (beq_zero_eq_true.2 ⟨s', hv⟩) (Bool.eq_false_iff.1 hne)
      | _ => exact ⟨_, rfl⟩
    obtain ⟨t, ht⟩ := hmul
    show (Float.Model.pack (mul Format.binary64 _ _)).unpack.isNaN = false
    rw [ht, unpack_pack (u := .infinity t) trivial]
    rfl

/-! ## Quotients -/

/-- Zero divided by a number that is not zero is zero. -/
theorem div_beq_zero (hz : (z == 0) = true) (hnan : y.isNaN = false) (hne : (y == 0) = false) :
    (z / y == 0) = true := by
  obtain ⟨s, hs⟩ := beq_zero_eq_true.1 hz
  have hdiv : ∃ t, div Format.binary64 z.toModel.unpack y.toModel.unpack = .zero t := by
    simp only [Float.isNaN, Float.Model.isNaN] at hnan
    rw [hs]
    cases hv : y.toModel.unpack with
    | notANumber =>
      rw [hv] at hnan
      cases hnan
    | zero s' => exact absurd (beq_zero_eq_true.2 ⟨s', hv⟩) (Bool.eq_false_iff.1 hne)
    | _ => exact ⟨_, rfl⟩
  obtain ⟨t, ht⟩ := hdiv
  exact beq_zero_eq_true.2 ⟨t, toModel_pack_unpack ht⟩

/-- A finite quotient is not divided by zero. -/
theorem not_beq_zero_of_isFinite_div (h : (x / y).isFinite = true) : (y == 0) = false := by
  rw [← Bool.not_eq_true]
  intro hy
  obtain ⟨s, hs⟩ := beq_zero_eq_true.1 hy
  have hdiv : (Float.Model.pack (div Format.binary64 x.toModel.unpack
      y.toModel.unpack)).unpack.isFinite = true := h
  -- what is divided by zero becomes infinite, or NaN
  rw [hs] at hdiv
  have hcanonical : ∀ u, IsCanonical u → u.isFinite = false →
      div Format.binary64 x.toModel.unpack (.zero s) ≠ u := by
    intro u hu hfin hdiv'
    rw [hdiv', unpack_pack hu, hfin] at hdiv
    cases hdiv
  cases hu : x.toModel.unpack with
  | notANumber => exact hcanonical .notANumber trivial rfl (by rw [hu]; rfl)
  | zero s' => exact hcanonical .notANumber trivial rfl (by rw [hu]; rfl)
  | infinity s' => exact hcanonical (.infinity _) trivial rfl (by rw [hu]; rfl)
  | finite s' m e hm => exact hcanonical (.infinity _) trivial rfl (by rw [hu]; rfl)

end ScalarRoots.Binary64
