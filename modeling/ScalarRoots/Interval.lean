import ScalarRoots.Decimal.Layout

/-! # Intervals

A `Span` is any pair of bounds; halving one gives two more.  An `Interval` is a
span that a search may start from: its bounds are finite and in order.

Main statements:

* `Interval.ofBounds_eq_ok`      an accepted interval has the bounds it was asked for
* `Interval.ofBounds_eq_error`   refused are exactly the bounds that are not finite or not in order
-/

namespace ScalarRoots

/-- Two bounds. -/
structure Span where
  lower : Float
  upper : Float
deriving DecidableEq, Repr

namespace Span

/-- The distance between the bounds. -/
def width (s : Span) : Float := s.upper - s.lower

/-- The lower bound plus half the width. -/
def midpoint (s : Span) : Float := s.lower + (s.upper - s.lower) * 0.5

/-- From the lower bound to the midpoint. -/
def leftHalf (s : Span) : Span := ⟨s.lower, s.midpoint⟩

/-- From the midpoint to the upper bound. -/
def rightHalf (s : Span) : Span := ⟨s.midpoint, s.upper⟩

/-- Finite bounds, the lower one below the upper one. -/
def IsProper (s : Span) : Prop :=
  s.lower.isFinite = true ∧ s.upper.isFinite = true ∧ s.lower < s.upper

instance (s : Span) : Decidable s.IsProper := by unfold IsProper; infer_instance

end Span

/-- Why a search for brackets cannot start. -/
inductive BracketError where
  /-- Bounds that are not finite or not in order. -/
  | invalidBounds (lower upper : Float)
  /-- There is nothing to search in. -/
  | noIntervals
  /-- Neither a number of rounds nor a tolerance is set. -/
  | missingTermination
deriving DecidableEq, Repr

/-- The text of the error. -/
def BracketError.message : BracketError → String
  | invalidBounds lower upper =>
    "invalid bounds: lower and upper must be finite with lower < upper. got "
      ++ s!"[{Decimal.plain.text lower}, {Decimal.plain.text upper}]"
  | noIntervals => "no seed intervals supplied"
  | missingTermination => "either the number of iterations or the target epsilon must be given"

/-- A span with finite bounds in order. -/
structure Interval extends Span where
  proper : toSpan.IsProper

namespace Interval

/-- Accepts finite bounds in order. -/
def ofBounds (s : Span) : Except BracketError Interval :=
  if h : s.IsProper then .ok ⟨s, h⟩ else .error (.invalidBounds s.lower s.upper)

/-- What is accepted is kept unchanged. -/
theorem ofBounds_eq_ok {s : Span} {i : Interval} : ofBounds s = .ok i ↔ i.toSpan = s := by
  unfold ofBounds
  split
  next h =>
    constructor
    · intro he
      cases he
      rfl
    · rintro rfl
      rfl
  next h =>
    constructor
    · nofun
    · rintro rfl
      -- an interval is proper by itself
      exact absurd i.proper h

/-- Everything that is not proper is refused, and the error names the bounds. -/
theorem ofBounds_eq_error {s : Span} {e : BracketError} :
    ofBounds s = .error e ↔ ¬ s.IsProper ∧ e = .invalidBounds s.lower s.upper := by
  unfold ofBounds
  split
  next h => exact ⟨nofun, fun he => absurd h he.1⟩
  next h =>
    constructor
    · intro he
      cases he
      exact ⟨h, rfl⟩
    · rintro ⟨-, rfl⟩
      rfl

end Interval

end ScalarRoots
