import ScalarRoots.Proofs.Binary64.Negation
import ScalarRoots.Proofs.Binary64.Range

/-!
# Sums

A sum is the difference to the negated second term, so what is known of differences is known of
sums: they do not underflow, and they are off by at most one part in `2 ^ 53`.  That is enough to
leave a number where it is when something much smaller is added to it.

## Key results

- `add_eq_sub_neg`: sums are differences
- `toRat_add`: how large sums are
- `le_abs_of_beq_add`: what can be added without an effect
-/

namespace ScalarRoots.Binary64

open Float.Model Float.Model.UnpackedFloat

variable {x y : Float}

/-- Sums are differences. -/
theorem add_eq_sub_neg (x y : Float) : x + y = x - -y := by
  show Float.ofModel (Float.Model.pack (add _ x.toModel.unpack y.toModel.unpack)) =
    Float.ofModel (Float.Model.pack (sub _ x.toModel.unpack (-y).toModel.unpack))
  rw [sub_eq_add_neg_unpacked, ← unpack_neg, Binary64.neg_neg]

/-- The negated number has the negated value. -/
@[simp] theorem toRat_neg (x : Float) : toRat (-x) = -toRat x := by
  rw [toRat, units_neg, Int.cast_neg, neg_div]
  rfl

section Operands

variable (hx : x.isFinite = true) (hy : y.isFinite = true)

include hx hy

/-- Sums do not underflow. -/
theorem isClose_add (hfin : (x + y).isFinite = true) :
    IsClose (toRat (x + y)) (toRat x + toRat y) := by
  rw [add_eq_sub_neg] at hfin ⊢
  have hclose := isClose_sub hx ((isFinite_neg_self y).trans hy) hfin
  rwa [toRat_neg, sub_neg_eq_add] at hclose

/-- How large sums are, where they do not overflow. -/
theorem toRat_add (h : |toRat x + toRat y| ≤ safeBound) :
    (x + y).isFinite = true ∧ IsClose (toRat (x + y)) (toRat x + toRat y) := by
  have hsub := toRat_sub hx ((isFinite_neg_self y).trans hy) (by
    rw [toRat_neg, sub_neg_eq_add]
    exact h)
  rwa [toRat_neg, sub_neg_eq_add, ← add_eq_sub_neg] at hsub

/-- What leaves a number where it is when it is added is smaller by a factor of about
    `2 ^ 53`. -/
theorem le_abs_of_beq_add (h : (x == x + y) = true) :
    (2 ^ 53 - 1) * |toRat y| ≤ |toRat x| := by
  have hfin : (x + y).isFinite = true := by
    obtain ⟨⟨-, hnan⟩, hunits⟩ := beq_iff.1 h
    exact isFinite_iff.2 ⟨hnan, hunits ▸ (isFinite_iff.1 hx).2⟩
  have hclose := isClose_add hx hy hfin
  unfold IsClose at hclose
  -- the exact sum is off by the whole of `y`, which the error bound allows only if it is small
  rw [← toRat_of_beq h, sub_add_cancel_left, abs_neg, le_div_iff₀ (by positivity)] at hclose
  have htriangle := abs_add_le (toRat x) (toRat y)
  linarith

end Operands

end ScalarRoots.Binary64
