import ScalarRoots.Report
import ScalarRoots.Decimal.Layout

/-! # Log records

What a computation has to say about its course is a `Note`.  A note carries the
facts, `Note.level` says how important they are and `Note.text` words them.
-/

namespace ScalarRoots

/-- The importance of a log record. -/
inductive Level where
  | warn
  | debug
  | trace
deriving DecidableEq, Repr

namespace Level

/-- The name that stands in front of a record. -/
def name : Level → String
  | warn => "WARN"
  | debug => "DEBUG"
  | trace => "TRACE"

/-- Warnings come first, traces last. -/
def rank : Level → Nat
  | warn => 0
  | debug => 1
  | trace => 2

/-- Whether records of level `l` are kept when everything up to `limit` is. -/
def includes (limit l : Level) : Bool := l.rank ≤ limit.rank

end Level

/-- The name of a rule in log records. -/
def MultipointRule.name : MultipointRule → String
  | midpointDerivative => "MidpointDerivative"
  | predictorCorrector => "PredictorCorrector"

/-- A log record. -/
inductive Note where
  /-- A round of bisection ended. -/
  | round (number total candidates : Nat)
  /-- Bisection ended. -/
  | bracketed (approximations intervals rounds : Nat)
  /-- An iteration reached a point. -/
  | iterate (algorithm : Algorithm) (number : Nat) (reached : Point Float)
  /-- A Chebyshev iteration accepted a point because the Newton step was small. -/
  | smallStep (number : Nat) (reached : Point Float)
  /-- A multipoint iteration reached a point. -/
  | multipointIterate (rule : MultipointRule) (number : Nat) (reached : Point Float)
  /-- A false position iteration narrowed its bracket; `b` is the newest end. -/
  | bracketIterate (number : Nat) (a : Float) (b : Point Float)
  /-- The iterations ran out. -/
  | noConvergence (algorithm : Algorithm) (start : Stencil) (iterations : Nat)
  /-- No parabola fits through the points. -/
  | singularSystem (x₀ x₁ x₂ : Float)
  /-- A parabola has no zero; `fallback` stands in for the root of its discriminant. -/
  | negativeDiscriminant (discriminant fallback : Float)
  /-- A batch starts again because some of its seeds ended in singular systems. -/
  | restart (singular number limit : Nat)
  /-- A batch of seeds was refined. -/
  | refined (algorithm : Algorithm) (seeds : Nat)
deriving Repr

namespace Note

/-- Warnings are for results to be doubted, debug records for the end of a
    computation, traces for its single steps. -/
def level : Note → Level
  | round .. => .trace
  | bracketed .. => .debug
  | iterate .. => .trace
  | smallStep .. => .trace
  | multipointIterate .. => .trace
  | bracketIterate .. => .trace
  | noConvergence .. => .debug
  | singularSystem .. => .debug
  | negativeDiscriminant .. => .warn
  | restart .. => .warn
  | refined .. => .debug

/-- The number of the refinement step that a note is about. -/
def iteration? : Note → Option Nat
  | iterate _ number _ => some number
  | smallStep number _ => some number
  | multipointIterate _ number _ => some number
  | bracketIterate number .. => some number
  | _ => none

open Decimal (plain pointed)

/-- Where a refinement started. -/
def startText : Stencil → String
  | .single x => s!"x0={plain.text x}"
  | .pair x₀ x₁ | .bracket x₀ x₁ => s!"({plain.text x₀}, {plain.text x₁})"
  | .triple x₀ x₁ x₂ => s!"[{pointed.text x₀}, {pointed.text x₁}, {pointed.text x₂}]"

/-- A point with its value. -/
def pointText (p : Point Float) : String := s!"x={plain.text p.x}, f(x)={plain.text p.y}"

/-- The text of a record, without its level. -/
def text : Note → String
  | round number total candidates =>
    s!"{Algorithm.bisection.name}: round {number}/{total}, {candidates} candidate intervals"
  | bracketed approximations intervals rounds =>
    s!"{Algorithm.bisection.name}: {approximations} approximations from {intervals} intervals after {rounds} rounds"
  | iterate algorithm number p => s!"{algorithm.name}: iter={number}, {pointText p}"
  | smallStep number p => s!"{Algorithm.chebyshev.name}: iter={number}, {pointText p}, step below epsilon"
  | multipointIterate rule number p =>
    s!"{Algorithm.multipoint.name}: iter={number}, mode={rule.name}, {pointText p}"
  | bracketIterate number a b =>
    s!"{Algorithm.falsePosition.name}: iter={number}, bracket=({plain.text a}, {plain.text b.x}), f(x)={plain.text b.y}"
  | noConvergence algorithm start iterations =>
    s!"{algorithm.name}: no convergence from {startText start} after {iterations} iterations"
  | singularSystem x₀ x₁ x₂ =>
    s!"{Algorithm.muller.name}: singular system at ({plain.text x₀}, {plain.text x₁}, {plain.text x₂})"
  | negativeDiscriminant discriminant fallback =>
    s!"{Algorithm.muller.name}: negative discriminant {plain.text discriminant}, using {plain.text fallback}"
  | restart singular number limit =>
    s!"{Algorithm.muller.name}: {singular} singular system(s), restart {number}/{limit} from current roots"
  | refined algorithm seeds =>
    s!"{algorithm.name}: refined {seeds} seeds (order {plain.text algorithm.order})"

end Note

end ScalarRoots
