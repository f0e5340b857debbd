import ScalarRoots.Binary64.Parts

/-! # The shortest decimal that reads back

Every binary64 number is the nearest one to all decimals in a small interval
around it.  `shortest` picks from that interval a decimal with the fewest digits,
and of those the one nearest to the number; of two equally near ones the greater.

The search goes through grids: for one digit, two digits and so on it looks at
the two neighbours of the number among the decimals with that many digits, in
exact integer arithmetic.  If any point of a grid lies in the interval, one of
these two does, so the first grid with a hit has the fewest digits.

Main statements:

* `inside_of_nearestInside`   what a grid contributes lies in the interval
* `nearestInside_eq_none`     a grid contributes nothing exactly when both neighbours lie outside
-/

namespace ScalarRoots.Decimal

open ScalarRoots.Binary64 (Magnitude)

/-- The exact decimal `coefficient · 10 ^ exponent`. -/
structure Numeral where
  coefficient : Nat
  exponent : Int
deriving DecidableEq, Repr

/-- Seventeen digits tell any two binary64 numbers apart. -/
def digitLimit : Nat := 17

/-- A quotient of natural numbers, `den` positive. -/
structure Ratio where
  num : Nat
  den : Nat

/-- The quotient `num / den · 10 ^ power`. -/
def Ratio.scale (r : Ratio) (power : Int) : Ratio :=
  ⟨r.num * Nat.pow 10 power.toNat, r.den * Nat.pow 10 (-power).toNat⟩

/-- The number of digits of a natural number, one for zero. -/
def digitCount (n : Nat) : Nat := (Nat.toDigits 10 n).length

/-- The decimal exponent of the leading digit: the greatest `k` with
    `10 ^ k ≤ num / den`, for a positive quotient. -/
def Ratio.leadingExponent (r : Ratio) : Int :=
  if r.den ≤ r.num then
    digitCount (r.num / r.den) - 1
  else
    -- the least `j` with `den ≤ 10 ^ j · num`
    -(digitCount ((r.den - 1) / r.num) : Int)

/-- A number with the interval that rounds to it, all in the same unit.  The ends
    belong to the interval when `closed` holds. -/
structure Neighbourhood where
  lower : Nat
  centre : Nat
  upper : Nat
  closed : Bool

/-- What rounds to a positive magnitude, in quarters of the unit
    `2 ^ exponent`.  Half a unit on either side, but only a quarter below a power
    of two, where the numbers lie twice as close; and the ends go to the
    neighbour with the even significand. -/
def Neighbourhood.of (m : Magnitude) : Neighbourhood where
  lower :=
    if m.significand = Nat.pow 2 52 ∧ Binary64.leastExponent < m.exponent then
      4 * m.significand - 1
    else
      4 * m.significand - 2
  centre := 4 * m.significand
  upper := 4 * m.significand + 2
  closed := m.significand % 2 = 0

/-- The value of `n` quarters of the unit `2 ^ exponent`. -/
def quarters (exponent : Int) (n : Nat) : Ratio :=
  ⟨n * Nat.pow 2 (exponent - 2).toNat, Nat.pow 2 (2 - exponent).toNat⟩

/-- Whether the whole number `n` lies in the interval from `lower` to `upper`. -/
def inside (closed : Bool) (lower upper : Ratio) (n : Nat) : Bool :=
  if closed then
    lower.num ≤ n * lower.den && n * upper.den ≤ upper.num
  else
    lower.num < n * lower.den && n * upper.den < upper.num

/-- The whole number that lies in the interval and is nearest to `centre`, if one
    of the two neighbours of `centre` lies in it; of two equally near the greater. -/
def nearestInside (closed : Bool) (lower centre upper : Ratio) : Option Nat :=
  let below := centre.num / centre.den
  let rest := centre.num % centre.den
  match inside closed lower upper below, inside closed lower upper (below + 1) with
  | true, true => some (if 2 * rest < centre.den then below else below + 1)
  | true, false => some below
  | false, true => some (below + 1)
  | false, false => none

/-- The candidate that is chosen lies inside. -/
theorem inside_of_nearestInside {closed : Bool} {lower centre upper : Ratio} {n : Nat}
    (h : nearestInside closed lower centre upper = some n) :
    inside closed lower upper n = true := by
  simp only [nearestInside] at h
  -- four cases: whether the neighbour below lies inside, and whether the one above does
  split at h
  · split at h <;> cases h <;> assumption
  · cases h; assumption
  · cases h; assumption
  · cases h

/-- There is none to choose when both neighbours of the centre lie outside. -/
theorem nearestInside_eq_none {closed : Bool} {lower centre upper : Ratio} :
    nearestInside closed lower centre upper = none ↔
      inside closed lower upper (centre.num / centre.den) = false ∧
        inside closed lower upper (centre.num / centre.den + 1) = false := by
  simp only [nearestInside]
  split <;> simp_all

/-- Tries the grids with `count`, `count + 1`, … digits.  After `grids` of them
    without a hit the digits that follow are cut off. -/
def searchGrids (m : Magnitude) (leading : Int) : (grids count : Nat) → Numeral
  | 0, count =>
    let power := leading + 1 - count
    let centre := (quarters m.exponent (4 * m.significand)).scale (-power)
    ⟨centre.num / centre.den, power⟩
  | grids + 1, count =>
    let power := leading + 1 - count
    let hood := Neighbourhood.of m
    let scaled (n : Nat) := (quarters m.exponent n).scale (-power)
    -- the grid has its points at the whole multiples of `10 ^ power`
    match nearestInside hood.closed (scaled hood.lower) (scaled hood.centre) (scaled hood.upper) with
    | some n => ⟨n, power⟩
    | none => searchGrids m leading grids (count + 1)

/-- Moves the zeros at the end of a coefficient into the exponent; `fuel` bounds
    how many. -/
def stripZeros : (fuel : Nat) → Numeral → Numeral
  | 0, d => d
  | fuel + 1, d =>
    if d.coefficient % 10 = 0 then
      stripZeros fuel ⟨d.coefficient / 10, d.exponent + 1⟩
    else
      d

/-- The shortest decimal that reads back as the given magnitude. -/
def shortest (m : Magnitude) : Numeral :=
  if m.significand = 0 then
    ⟨0, 0⟩
  else
    let leading := (quarters m.exponent (4 * m.significand)).leadingExponent
    stripZeros digitLimit (searchGrids m leading digitLimit 1)

end ScalarRoots.Decimal
