import ScalarRoots.Bracketing.Settings
import ScalarRoots.Run
import ScalarRoots.Sign

/-! # Bracketing by bisection

`findApproximations` halves seed intervals again and again.  A half is dropped
only when the test of its ends rules a root out; what is left after the last
round turns into approximations, in order.

Main statements, about the values of the traced functions:

* `value_survivors`    the halves of a span that are kept
* `value_bisectAll`    a round treats the spans one by one
* `outcome_findApproximations`   the outcome, without the bookkeeping
-/

namespace ScalarRoots

/-- A place to look for a root. -/
structure Approximation where
  /-- The rounded midpoint of the last span. -/
  location : Float
  /-- The value of the function at the midpoint itself. -/
  value : Float
deriving DecidableEq, Repr

namespace Span

/-- A half and the verdict on it: the half if it may contain a root. -/
def keepIf (s : Span) (v : Verdict) : List Span := if v.mayContainRoot then [s] else []

/-- The halves of a span that may contain a root, the left one first.  When the
    left half has its root exactly at the midpoint, the right half is not looked
    at: it would only give the same root again. -/
def survivors (f : Float → Float) (s : Span) : Traced Event (List Span) := do
  let left ← s.leftHalf.test f
  if left.isRootAt s.midpoint then
    return s.leftHalf.keepIf left
  let right ← s.rightHalf.test f
  return s.leftHalf.keepIf left ++ s.rightHalf.keepIf right

/-- Which halves survive, without the bookkeeping. -/
theorem value_survivors (f : Float → Float) (s : Span) :
    (s.survivors f).value =
      if (s.leftHalf.test f).value.isRootAt s.midpoint then
        s.leftHalf.keepIf (s.leftHalf.test f).value
      else
        s.leftHalf.keepIf (s.leftHalf.test f).value
          ++ s.rightHalf.keepIf (s.rightHalf.test f).value := by
  by_cases h : (s.leftHalf.test f).value.isRootAt s.midpoint = true <;> simp [survivors, h]

/-- The approximation that a span stands for. -/
def approximate (f : Float → Float) (digits : Nat) (s : Span) : Traced Event Approximation := do
  let y ← probe .value f s.midpoint
  return ⟨Binary64.roundToPlaces s.midpoint digits, y⟩

/-- An approximation has the rounded midpoint and the value at the midpoint itself. -/
@[simp] theorem value_approximate (f : Float → Float) (digits : Nat) (s : Span) :
    (s.approximate f digits).value =
      ⟨Binary64.roundToPlaces s.midpoint digits, f s.midpoint⟩ := rfl

end Span

/-- One round: the surviving halves of all spans, in order. -/
def bisectAll (f : Float → Float) : List Span → Traced Event (List Span)
  | [] => pure []
  | s :: rest => do
    let kept ← s.survivors f
    let others ← bisectAll f rest
    return kept ++ others

/-- A round treats the spans one by one. -/
@[simp] theorem value_bisectAll (f : Float → Float) (spans : List Span) :
    (bisectAll f spans).value = spans.flatMap fun s => (s.survivors f).value := by
  -- Induction on the spans, which a round goes through one by one.
  induction spans with
  | nil => rfl
  | cons s rest ih => simp [bisectAll, ih]

/-- Runs `left` more rounds of `total`, logging each. -/
def bisectRounds (f : Float → Float) (total : Nat) :
    (left : Nat) → List Span → Traced Event (List Span)
  | 0, spans => pure spans
  | left + 1, spans => do
    let next ← bisectAll f spans
    log (.round (total - left) total next.length)
    bisectRounds f total left next

/-- One round and then the others. -/
@[simp] theorem value_bisectRounds_succ (f : Float → Float) (total left : Nat)
    (spans : List Span) :
    (bisectRounds f total (left + 1) spans).value =
      (bisectRounds f total left (bisectAll f spans).value).value := rfl

/-- The approximations of all spans, in order. -/
def approximateAll (f : Float → Float) (digits : Nat) :
    List Span → Traced Event (List Approximation)
  | [] => pure []
  | s :: rest => do
    let a ← s.approximate f digits
    let others ← approximateAll f digits rest
    return a :: others

/-- Every span is approximated on its own. -/
@[simp] theorem value_approximateAll (f : Float → Float) (digits : Nat) (spans : List Span) :
    (approximateAll f digits spans).value =
      spans.map fun s => (s.approximate f digits).value := by
  induction spans with
  | nil => rfl
  | cons s rest ih => simp [approximateAll, ih]

/-- Bisects `intervals` for `rounds` rounds. -/
def bracketRoots (f : Float → Float) (digits rounds : Nat) (intervals : List Interval) :
    Traced Event (List Approximation) := do
  let spans ← bisectRounds f rounds rounds (intervals.map (·.toSpan))
  -- the midpoints are evaluated only now, after the last round
  let found ← approximateAll f digits spans
  log (.bracketed found.length intervals.length rounds)
  return found

/-- Checks what a search was asked for: there are intervals, each of them is
    proper, and it is settled when to stop.  Gives the intervals and the rounds. -/
def BracketSettings.plan (settings : BracketSettings) (spans : List Span) :
    Except BracketError (List Interval × Nat) := do
  if spans.isEmpty then
    throw .noIntervals
  let intervals ← spans.mapM Interval.ofBounds
  let rounds ← settings.roundsFor intervals
  return (intervals, rounds)

/-- Approximations of the roots of `f` in some spans, one for every part that is
    still kept after the last round.  Approximations that round to the same
    location are all given. -/
def findApproximations (f : Float → Float) (settings : BracketSettings) (spans : List Span) :
    Run BracketError (List Approximation) := do
  let (intervals, rounds) ← Run.ofExcept (settings.plan spans)
  bracketRoots f settings.digits rounds intervals

/-- Once the request has been checked, nothing can fail any more. -/
theorem outcome_findApproximations (f : Float → Float) (settings : BracketSettings)
    (spans : List Span) :
    (findApproximations f settings spans).outcome =
      (settings.plan spans).map fun (intervals, rounds) =>
        (bracketRoots f settings.digits rounds intervals).value := by
  cases h : settings.plan spans with
  | error e => simp [findApproximations, h, Except.bind, Except.map]
  | ok p => simp [findApproximations, h, Except.bind, Except.map]

end ScalarRoots
