import ScalarRoots.Decimal.Shortest

/-! # Decimal text

How a binary64 number is written out.  Both layouts take the digits of
`Decimal.shortest`; they differ in where the point goes.

* `plain` never uses an exponent and gives whole numbers no point: `2`, `-0`,
  `0.0000001`, `1000000000000000000000`.
* `pointed` always shows a fraction, `2.0`, and switches to an exponent for very
  large and very small numbers: `1e16`, `1.25e-7`.
-/

namespace ScalarRoots.Decimal

/-- Where the point goes and when an exponent is written. -/
structure Layout where
  /-- Whether a whole number in positional notation ends in `.0`. -/
  wholePoint : Bool
  /-- The decimal exponents of the leading digit that are written positionally,
      the first included and the second not; all of them if there is no range. -/
  positional : Option (Int × Int)

/-- Positional always, whole numbers without a point. -/
def plain : Layout := ⟨false, none⟩

/-- A point in every positional number, and an exponent from `10 ^ 16` on and
    below `10 ^ (-4)`. -/
def pointed : Layout := ⟨true, some (-4, 16)⟩

namespace Layout

/-- Whether a number whose leading digit stands at `10 ^ leading` is written
    positionally. -/
def isPositional (layout : Layout) (leading : Int) : Bool :=
  match layout.positional with
  | none => true
  | some (first, last) => first ≤ leading && leading < last

/-- The digits of a decimal with the point in its place. -/
def positionalText (layout : Layout) (digits : List Char) (exponent : Int) : List Char :=
  if 0 ≤ exponent then
    digits ++ List.replicate exponent.toNat '0' ++ if layout.wholePoint then ['.', '0'] else []
  else
    let places := (-exponent).toNat
    if places < digits.length then
      digits.take (digits.length - places) ++ '.' :: digits.drop (digits.length - places)
    else
      -- all digits stand behind the point, after some zeros
      '0' :: '.' :: List.replicate (places - digits.length) '0' ++ digits

/-- The first digit, the others behind a point, and the exponent of the first. -/
def scientificText (digits : List Char) (leading : Int) : List Char :=
  digits.take 1 ++ (if digits.length ≤ 1 then [] else '.' :: digits.drop 1)
    ++ 'e' :: (toString leading).toList

/-- The text of a numeral without its sign. -/
def numeralText (layout : Layout) (d : Numeral) : List Char :=
  let digits := Nat.toDigits 10 d.coefficient
  let leading := d.exponent + digits.length - 1
  if layout.isPositional leading then
    layout.positionalText digits d.exponent
  else
    scientificText digits leading

/-- The text of a number. -/
def text (layout : Layout) (x : Float) : String :=
  if x.isNaN then "NaN"
  else
    let sign := if Binary64.signBit x then "-" else ""
    if x.isInf then sign ++ "inf"
    else sign ++ String.ofList (layout.numeralText (shortest (Binary64.magnitude x)))

end Layout

end ScalarRoots.Decimal
