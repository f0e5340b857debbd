import ScalarRoots.Algorithm
import ScalarRoots.Point

/-! # What a refinement reports

A refinement that comes to an end, with or without a root, answers with a
`Report`: the best point it can offer, how much work it did, why it stopped and
which tolerance was met, and its `Stencil`, the points that the last update was
made from.  An `Ending` tells the reason and the tolerance in one; a report states
the two by themselves, and that they go together is a property of the reports that
refinements make.
-/

namespace ScalarRoots

/-- The locations that an update is made from. -/
inductive Stencil where
  /-- Two ends that enclose a root, the newest last. -/
  | bracket (a b : Float)
  | single (x : Float)
  | pair (x₀ x₁ : Float)
  | triple (x₀ x₁ x₂ : Float)
deriving DecidableEq, Repr

/-- The locations in order, the newest last. -/
def Stencil.points : Stencil → List Float
  | bracket a b => [a, b]
  | single x => [x]
  | pair x₀ x₁ => [x₀, x₁]
  | triple x₀ x₁ x₂ => [x₀, x₁, x₂]

/-- Which tolerance was met. -/
inductive Criterion where
  /-- The residual is below the tolerance. -/
  | residual
  /-- The last step is below the tolerance. -/
  | step
deriving DecidableEq, Repr

/-- Why a refinement stopped. -/
inductive Reason where
  /-- A tolerance was met. -/
  | toleranceReached
  /-- The iterations ran out; the report then offers the best point seen. -/
  | iterationLimit
  /-- The points admit no update. -/
  | singularSystem
deriving DecidableEq, Repr

/-- The ways in which a refinement can end, each with the tolerance that it meets. -/
inductive Ending where
  | converged (criterion : Criterion)
  | exhausted
  | singular
deriving DecidableEq, Repr

/-- Why a refinement stops that ends in this way. -/
def Ending.reason : Ending → Reason
  | converged _ => .toleranceReached
  | exhausted => .iterationLimit
  | singular => .singularSystem

/-- The tolerance that is met by ending in this way, if one is. -/
def Ending.criterion? : Ending → Option Criterion
  | converged c => some c
  | exhausted => none
  | singular => none

/-- The answer of a refinement that came to an end.  Why it stopped and which tolerance was met
    are set apart from each other. -/
structure Report where
  algorithm : Algorithm
  /-- The point offered as the root. -/
  root : Point Float
  iterations : Nat
  /-- How often the function and its derivatives were evaluated. -/
  evaluations : Nat
  reason : Reason
  /-- The tolerance that was met, if one was. -/
  met : Option Criterion
  stencil : Stencil
deriving Repr

/-- The ending that a report speaks of. -/
def Report.ending (r : Report) : Ending :=
  match r.met with
  | some c => .converged c
  | none => if r.reason = .singularSystem then .singular else .exhausted

/-- Whether the refinement stopped because a tolerance was reached. -/
def Report.isConverged (r : Report) : Bool := r.reason = .toleranceReached

/-- Whether the refinement stopped at points that admit no update. -/
def Report.isSingular (r : Report) : Bool := r.reason = .singularSystem

end ScalarRoots
