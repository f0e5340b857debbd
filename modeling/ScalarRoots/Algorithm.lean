/-! # The methods

The library has one method that brackets roots, bisection, and six that refine an
approximation: false position, secant, Newton, Muller, Chebyshev and a
multipoint iteration.  This module holds what is known of each in advance: its
name, how many iterations it is allowed when nobody says, and its order of
convergence.
-/

namespace ScalarRoots

/-- A method for finding roots. -/
inductive Algorithm where
  | bisection
  | falsePosition
  | secant
  | muller
  | newton
  | chebyshev
  | multipoint
deriving DecidableEq, Repr

/-- The two update rules of the multipoint iteration. -/
inductive MultipointRule where
  /-- A Newton step with the slope at half that step. -/
  | midpointDerivative
  /-- A Newton step, corrected by the residual it leaves. -/
  | predictorCorrector
deriving DecidableEq, Repr

namespace Algorithm

/-- The name in reports and log records. -/
def name : Algorithm → String
  | bisection => "bisection"
  | falsePosition => "regula_falsi"
  | secant => "secant"
  | muller => "muller"
  | newton => "newton"
  | chebyshev => "chebyshev"
  | multipoint => "multipoint"

/-- How many iterations a method is allowed unless its settings say otherwise:
    the higher its order, the fewer.  Bisection has no such number, its rounds
    follow from the widths of the intervals. -/
def defaultIterations : Algorithm → Option Nat
  | bisection => none
  | falsePosition => some 200
  | secant => some 100
  | muller => some 100
  | newton => some 50
  | chebyshev => some 50
  | multipoint => some 50

/-- The order of convergence near a simple root. -/
def order : Algorithm → Float
  | bisection => 1
  | falsePosition => 1
  | secant => 1.618
  | muller => 1.84
  | newton => 2
  | chebyshev => 3
  | multipoint => 3

/-- Where nothing else limits the iterations, and for rounds of bisection that
    follow from a tolerance. -/
def iterationCap : Nat := 500

/-- The iterations a method may use: those asked for, else its own default, else
    the cap. -/
def budget (a : Algorithm) (requested : Option Nat) : Nat :=
  requested.getD (a.defaultIterations.getD iterationCap)

/-- What is asked for is allowed. -/
@[simp] theorem budget_some (a : Algorithm) (n : Nat) : a.budget (some n) = n := rfl

/-- At least one iteration is allowed, unless none are asked for. -/
theorem budget_pos {a : Algorithm} {requested : Option Nat} (h : ∀ n ∈ requested, 0 < n) :
    0 < a.budget requested := by
  cases requested with
  | some n => exact h n rfl
  | none => cases a <;> decide

end Algorithm

end ScalarRoots
