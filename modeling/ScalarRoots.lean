import ScalarRoots.Session
import ScalarRoots.Proofs.Binary64.Canonical
import ScalarRoots.Proofs.Binary64.Units
import ScalarRoots.Proofs.Binary64.Order
import ScalarRoots.Proofs.Binary64.Nearest
import ScalarRoots.Proofs.Binary64.Rounded
import ScalarRoots.Proofs.Binary64.Arithmetic
import ScalarRoots.Proofs.Binary64.Negation
import ScalarRoots.Proofs.Binary64.Range
import ScalarRoots.Proofs.Binary64.Zero
import ScalarRoots.Proofs.Binary64.Sum
import ScalarRoots.Proofs.Binary64.Closest
import ScalarRoots.Proofs.Binary64.Whole
import ScalarRoots.Proofs.Binary64.Places
import ScalarRoots.Proofs.Binary64.Logarithm
import ScalarRoots.Proofs.Binary64.Monotone
import ScalarRoots.Proofs.Sign
import ScalarRoots.Proofs.Offsets
import ScalarRoots.Proofs.Offsets.Size
import ScalarRoots.Proofs.Bracketing.Rounds
import ScalarRoots.Proofs.Bracketing.Certificate
import ScalarRoots.Proofs.Bracketing.Survivors
import ScalarRoots.Proofs.Bracketing.DepthFirst
import ScalarRoots.Proofs.Bracketing.Requests
import ScalarRoots.Proofs.Bracketing.Provenance
import ScalarRoots.Proofs.Bracketing.Count
import ScalarRoots.Proofs.Bracketing.Containment
import ScalarRoots.Proofs.Bracketing.KnownRoots
import ScalarRoots.Proofs.Bracketing.Locations
import ScalarRoots.Proofs.Bracketing.Halvings
import ScalarRoots.Proofs.Refinement.Family
import ScalarRoots.Proofs.Refinement.Steps
import ScalarRoots.Proofs.Refinement.Course
import ScalarRoots.Proofs.Refinement.Accounting
import ScalarRoots.Proofs.Refinement.Running
import ScalarRoots.Proofs.Refinement.Honesty
import ScalarRoots.Proofs.Refinement.Budget
import ScalarRoots.Proofs.Refinement.Best
import ScalarRoots.Proofs.Refinement.Checkpoint
import ScalarRoots.Proofs.Refinement.Iterates
import ScalarRoots.Proofs.Refinement.Lockstep
import ScalarRoots.Proofs.Refinement.Finite
import ScalarRoots.Proofs.Refinement.Overflow
import ScalarRoots.Proofs.Refinement.StepSize
import ScalarRoots.Proofs.Refinement.Checks
import ScalarRoots.Proofs.Refinement.Evidence
import ScalarRoots.Proofs.Refinement.Enclosure
import ScalarRoots.Proofs.Refinement.Intercept
import ScalarRoots.Proofs.Refinement.Nested
import ScalarRoots.Proofs.Refinement.Alternation
import ScalarRoots.Proofs.Refinement.Degenerate
import ScalarRoots.Proofs.Refinement.NearestZero
import ScalarRoots.Proofs.Refinement.Singular
import ScalarRoots.Proofs.Refinement.Curvature
import ScalarRoots.Proofs.Refinement.ConstantSlope
import ScalarRoots.Proofs.Batch.InOrder
import ScalarRoots.Proofs.Batch.Seedwise
import ScalarRoots.Proofs.Batch.Starts
import ScalarRoots.Proofs.Batch.Silence
import ScalarRoots.Proofs.Batch.Restarts
import ScalarRoots.Proofs.Batch.Positions
import ScalarRoots.Proofs.Session.Commands
import ScalarRoots.Proofs.Session.Latest
import ScalarRoots.Proofs.Session.History
import ScalarRoots.Proofs.Session.Restarts
import ScalarRoots.Proofs.Mirrored.Runs
import ScalarRoots.Proofs.Mirrored.Methods

/-!
# Roots of functions of one real variable

A solver looks for sign changes by bisection and refines what it finds by one of six iterations.
All numbers are binary64 numbers.

## The program

- `Traced` and `Run` are computations with a transcript: every evaluation of a function is a
  `Probe`, and every log record a `Note`.  A `Run` may fail, and it counts evaluations.
- `Bracketing` halves intervals and turns what is left into approximations.
- `Refinement.Iteration` is the loop that all refinements share.  A `Scheme` says what is
  particular to a method, and there is one module for each method beside it.
- `Refinement.Batch` refines many seeds, whose other starts come from `Offsets`, and `Session`
  remembers intervals, approximations and reports.

## The theory

- `Proofs.Binary64` counts numbers in units of the least positive one.  Comparisons are those of
  the units, and an operation is the exact one on units, rounded.  What the other modules need to
  know of rounding they take from these.
- `Proofs.Bracketing` follows spans through the rounds of bisection.  Its base are `Rounds` and
  `Certificate`, on what a single round keeps; `DepthFirst` takes all rounds together.
- `Proofs.Refinement` has three layers.  `Steps` says what each step can do, `Course` what a whole
  iteration makes of its steps, and `Family` takes the six methods together.  What an iteration
  reports, counts and keeps is proved of any scheme first (`Honesty`, `Accounting`, `Budget`,
  `Best`, `Checkpoint`, `Lockstep`, `Checks`) and then of the six; the modules after these are on
  what is peculiar to one or two of the methods.
- `Proofs.Batch` and `Proofs.Session` carry the properties of single refinements over to lists of
  seeds and to histories of commands.
- `Proofs.Mirrored` is about functions that are reflected at zero, and about all of the above.
-/
