import ScalarRoots.Binary64.Parts

/-! # The binary logarithm

The logarithm of `μ · 2 ^ e` with `1 ≤ μ < 2` is `e` plus a fraction in `[0, 1)`,
whose bits come out of `μ` one at a time: squaring a number doubles its
logarithm, so the next bit is set exactly when the square reaches two.
`fractionOfLog2` runs this on integers with `workingBits` binary places, far more
than the `fractionLength` bits it produces, so that what squaring drops does not
reach the bits that are kept.  The sum is rounded to binary64 once, at the end;
exact powers of two give whole logarithms.
-/

namespace ScalarRoots.Binary64

/-- Binary places of the numbers that are squared. -/
def workingBits : Nat := 256

/-- How many bits of the fraction are computed. -/
def fractionLength : Nat := 120

/-- Appends the next `count` bits of the binary logarithm of
    `mantissa / 2 ^ workingBits`, a number in `[1, 2)`, to `bits`. -/
def log2Bits : (count mantissa bits : Nat) → Nat
  | 0, _, bits => bits
  | count + 1, mantissa, bits =>
    let square := (mantissa * mantissa) >>> workingBits
    if square >>> (workingBits + 1) = 0 then
      log2Bits count square (2 * bits)
    else
      log2Bits count (square >>> 1) (2 * bits + 1)

/-- The binary logarithm of a positive magnitude in units of
    `2 ^ (-fractionLength)`, rounded down. -/
def log2Fixed (m : Magnitude) : Int :=
  let lead := m.significand.log2
  let mantissa := m.significand <<< (workingBits - lead)
  (m.exponent + lead) * Nat.pow 2 fractionLength + log2Bits fractionLength mantissa 0

/-- The binary logarithm: negative infinity at zero, and NaN for negative numbers. -/
def log2 (x : Float) : Float :=
  if x.isNaN then x
  else if x == 0 then -1 / 0
  else if signBit x then 0 / 0
  else if x.isInf then x
  else Float.ofInt (log2Fixed (magnitude x)) / Float.ofNat (Nat.pow 2 fractionLength)

end ScalarRoots.Binary64
