import ScalarRoots.Binary64.Parts

/-! # Rounding to whole numbers and to decimal places

`roundHalfAway` rounds to the nearest whole number, a half away from zero, and
`roundToPlaces` to a number of decimal places, by scaling up, rounding and
scaling down again.  `ceilToNat` is the least whole number that is not smaller,
saturated at sixty-four bits.

Below `2 ^ 52` a number has a fraction to round; from there on every binary64
number is whole.
-/

namespace ScalarRoots.Binary64

/-- From here on every number is whole. -/
def wholeFrom : Float := 4503599627370496

/-- The nearest whole number to `x ≥ 0`, a half going up; for `x` below `wholeFrom`. -/
def roundHalfUp (x : Float) : Float :=
  let whole := x.toUInt64.toFloat
  if 0.5 ≤ x - whole then whole + 1 else whole

/-- The nearest whole number, a half going away from zero.  The sign is kept, so
    that what rounds to zero from below gives `-0`; infinities and NaN are
    returned as they are. -/
def roundHalfAway (x : Float) : Float :=
  if x.abs < wholeFrom then
    let whole := roundHalfUp x.abs
    if signBit x then -whole else whole
  else
    x

/-- The power of ten that moves `places` decimal places in front of the point. -/
def decimalScale (places : Nat) : Float := Float.ofNat (Nat.pow 10 places)

/-- `x` with `places` decimal places.  Where scaling up leaves the finite
    numbers, `x` is kept. -/
def roundToPlaces (x : Float) (places : Nat) : Float :=
  let rounded := roundHalfAway (x * decimalScale places) / decimalScale places
  if rounded.isFinite then rounded else x

/-- The greatest natural number that `ceilToNat` gives. -/
def maxWord : Nat := Nat.pow 2 64 - 1

/-- The least natural number that is not below `x`, at most `maxWord`; zero for
    NaN and for what is not positive. -/
def ceilToNat (x : Float) : Nat :=
  if x.toUInt64.toFloat < x then min (x.toUInt64.toNat + 1) maxWord else x.toUInt64.toNat

/-- What is rounded up fits into a word. -/
theorem ceilToNat_le_maxWord (x : Float) : ceilToNat x ≤ maxWord := by
  unfold ceilToNat
  split
  · exact Nat.min_le_right ..
  · exact Nat.le_pred_of_lt x.toUInt64.toNat_lt

end ScalarRoots.Binary64
