/-! # The fields of a binary64 number

A binary64 word holds a sign bit, eleven exponent bits and fifty-two fraction
bits.  `signBit` reads the first, and `magnitude` turns the other two into an
exact reading: a finite number is `± significand · 2 ^ exponent`.  Powers of
natural numbers are written with `Nat.pow`, which means the same whatever else is
imported.

Main statements:

* `significand_lt`      a significand has at most fifty-three bits
-/

namespace ScalarRoots.Binary64

/-- The sign bit: set for negative numbers, for `-0` too. -/
def signBit (x : Float) : Bool := x.toBits.toBitVec.msb

/-- The exact magnitude `significand · 2 ^ exponent` of a finite number. -/
structure Magnitude where
  significand : Nat
  exponent : Int
deriving DecidableEq, Repr

/-- The weight of the last bit of a subnormal number. -/
def leastExponent : Int := -1074

/-- The fraction bits of a word. -/
def fractionBits (x : Float) : Nat := x.toBits.toNat % Nat.pow 2 52

/-- The exponent bits of a word; all of them are set for infinities and NaN. -/
def exponentBits (x : Float) : Nat := x.toBits.toNat / Nat.pow 2 52 % Nat.pow 2 11

/-- Reads the magnitude of a finite number.  Subnormal numbers share the least
    exponent, all others have a leading one in front of their fraction bits. -/
def magnitude (x : Float) : Magnitude :=
  if exponentBits x = 0 then
    ⟨fractionBits x, leastExponent⟩
  else
    ⟨fractionBits x + Nat.pow 2 52, leastExponent + (exponentBits x - 1 : Nat)⟩

/-- The fraction has 52 bits. -/
theorem fractionBits_lt (x : Float) : fractionBits x < Nat.pow 2 52 :=
  Nat.mod_lt _ (by decide)

/-- With the leading one, the significand has 53. -/
theorem significand_lt (x : Float) : (magnitude x).significand < Nat.pow 2 53 := by
  have h := fractionBits_lt x
  unfold magnitude
  split <;> simp only [Nat.pow_eq] at * <;> omega

end ScalarRoots.Binary64
