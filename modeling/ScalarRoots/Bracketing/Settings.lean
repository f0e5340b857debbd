import ScalarRoots.Algorithm
import ScalarRoots.Binary64.Log2
import ScalarRoots.Binary64.Rounding
import ScalarRoots.Interval
import ScalarRoots.Settings

/-! # How long to bisect

Bisection runs for a fixed number of rounds, or until the intervals are narrow
enough for a tolerance, or for the greater number of rounds of the two.

Main statements:

* `halvings_le`           a number of halvings fits in sixty-four bits
* `roundsFor_eq_error`    the rounds are settled unless neither limit is set
-/

namespace ScalarRoots

/-- How many times a width has to be halved to come down to a tolerance: the
    difference of the binary logarithms, rounded up. -/
def halvings (width tolerance : Float) : Nat :=
  Binary64.ceilToNat (Binary64.log2 width - Binary64.log2 tolerance)

/-- A number of halvings fits into a word. -/
theorem halvings_le (width tolerance : Float) : halvings width tolerance ≤ Binary64.maxWord :=
  Binary64.ceilToNat_le_maxWord _

/-- With more decimal places than these, scaling a number up loses its last ones. -/
def maxDigits : Nat := 15

/-- When to stop bisecting and how to round what was found. -/
structure BracketSettings where
  /-- The rounds to run at least. -/
  rounds : Option Count := none
  /-- The width to bring the intervals down to. -/
  tolerance : Option Tolerance := none
  /-- Decimal places of the locations of approximations. -/
  digits : Nat := 5
  digits_le : digits ≤ maxDigits := by decide

namespace BracketSettings

instance : Inhabited BracketSettings := ⟨{}⟩

/-- Asks for a number of rounds, at least one. -/
def setRounds (s : BracketSettings) (n : Nat) : Except SettingError BracketSettings :=
  return { s with rounds := some (← Count.ofNat .noRounds n) }

/-- Asks for a width, finite and positive. -/
def setTolerance (s : BracketSettings) (x : Float) : Except SettingError BracketSettings :=
  return { s with tolerance := some (← Tolerance.ofFloat x) }

/-- Asks for a number of decimal places, at most `maxDigits`. -/
def setDigits (s : BracketSettings) (n : Nat) : Except SettingError BracketSettings :=
  if h : n ≤ maxDigits then
    .ok { s with digits := n, digits_le := h }
  else
    .error (.tooManyDigits n maxDigits)

/-- The rounds that bring the widest interval down to a tolerance, at most
    `Algorithm.iterationCap` of them. -/
def roundsToReach (t : Tolerance) (intervals : List Interval) : Nat :=
  min ((intervals.map fun i => halvings i.width t.bound).foldl max 0) Algorithm.iterationCap

/-- How many rounds to run on some intervals. -/
def roundsFor (s : BracketSettings) (intervals : List Interval) : Except BracketError Nat :=
  match s.rounds, s.tolerance with
  | none, none => .error .missingTermination
  | some n, none => .ok n.toNat
  | none, some t => .ok (roundsToReach t intervals)
  -- both limits are met by the greater number
  | some n, some t => .ok (max n.toNat (roundsToReach t intervals))

/-- The rounds are not settled only when neither limit is set. -/
theorem roundsFor_eq_error {s : BracketSettings} {intervals : List Interval} {e : BracketError} :
    s.roundsFor intervals = .error e ↔
      s.rounds = none ∧ s.tolerance = none ∧ e = .missingTermination := by
  unfold roundsFor
  cases s.rounds <;> cases s.tolerance <;> simp [eq_comm]

end BracketSettings

end ScalarRoots
