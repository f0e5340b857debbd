import ScalarRoots.Binary64.Parts
import ScalarRoots.Event
import ScalarRoots.Interval

/-! # Sign changes

A continuous function that has opposite signs at the ends of an interval has a
root inside.  `Span.test` looks at both ends and answers with a `Verdict`.  Signs
are compared as bits, not by the sign of a product, so that products too small to
represent do not matter.

Main statements:

* `value_test`   the verdict as a function of the values at the ends
* `Verdict.mayContainRoot_eq_false`   a span is ruled out by one verdict alone
-/

namespace ScalarRoots

/-- What the values at the two ends say about roots between them. -/
inductive Verdict where
  /-- The signs differ. -/
  | brackets
  /-- No sign change, or an end at which the function is not defined. -/
  | doesNotBracket
  /-- The function is zero at this end. -/
  | exactRoot (root : Float)
deriving Repr

namespace Verdict

/-- Whether a root between the ends is not ruled out. -/
def mayContainRoot : Verdict → Bool
  | brackets => true
  | doesNotBracket => false
  | exactRoot _ => true

/-- Whether the verdict names a root equal to `x`. -/
def isRootAt (x : Float) : Verdict → Bool
  | exactRoot root => root == x
  | _ => false

/-- The verdict on two values that are not zero. -/
def ofValues (yₗ yᵤ : Float) : Verdict :=
  if yₗ.isNaN || yᵤ.isNaN then doesNotBracket
  else if Binary64.signBit yₗ != Binary64.signBit yᵤ then brackets
  else doesNotBracket

/-- Only one verdict rules a root out. -/
theorem mayContainRoot_eq_false {v : Verdict} :
    v.mayContainRoot = false ↔ v = doesNotBracket := by
  cases v <;> simp [mayContainRoot]

end Verdict

namespace Span

/-- The verdict of `f` on a span.  The lower end is looked at first, and the upper
    one only if the lower is no root. -/
def test (f : Float → Float) (s : Span) : Traced Event Verdict := do
  let yₗ ← probe .value f s.lower
  if yₗ == 0 then
    return .exactRoot s.lower
  let yᵤ ← probe .value f s.upper
  if yᵤ == 0 then
    return .exactRoot s.upper
  -- neither value is zero here
  return .ofValues yₗ yᵤ

/-- The verdict, without the bookkeeping: a zero at the lower end comes before one at the upper. -/
theorem value_test (f : Float → Float) (s : Span) :
    (s.test f).value =
      if f s.lower == 0 then .exactRoot s.lower
      else if f s.upper == 0 then .exactRoot s.upper
      else .ofValues (f s.lower) (f s.upper) := by
  by_cases hl : (f s.lower == 0) = true
  · simp [test, hl]
  · by_cases hu : (f s.upper == 0) = true <;> simp [test, hl, hu]

end Span

end ScalarRoots
