import Mathlib.Data.List.Perm.Basic
import ScalarRoots.Proofs.Bracketing.Survivors

/-!
# Bisection, one interval at a time

Rounds of bisection go through all spans at once, breadth first.  What is left in the end is
the same, and in the same order, as when every interval is searched alone, depth first and
to the depth of the rounds.  So an interval has its own block of approximations, on which
the other intervals have no influence but through the number of rounds, and that number
does not depend on their order.

## Key results

- `Span.leaves`: the depth-first search of a single span
- `value_bisectRounds_eq_flatMap_leaves`: rounds give the leaves of all spans in order
- `BracketSettings.roundsFor_perm`: the order of the intervals does not change the rounds
- `outcome_findApproximations_eq_blocks`: a search gives one block for each interval
-/

namespace ScalarRoots

open Binary64

/-! ## One span -/

namespace Span

/-- The parts of a span at a depth, found depth first and from left to right.  A half that is
    ruled out has none, and the right half is left out when the left one has its root at the
    midpoint. -/
def leaves (f : Float → Float) : (depth : Nat) → Span → List Span
  | 0, s => [s]
  | depth + 1, s =>
    let left := (s.leftHalf.test f).value
    let right := (s.rightHalf.test f).value
    (if left.mayContainRoot then leaves f depth s.leftHalf else []) ++
      if left.isRootAt s.midpoint then []
      else if right.mayContainRoot then leaves f depth s.rightHalf
      else []

/-- The approximations that the leaves of a span stand for. -/
def approximations (f : Float → Float) (digits depth : Nat) (s : Span) : List Approximation :=
  (s.leaves f depth).map fun t => ⟨roundToPlaces t.midpoint digits, f t.midpoint⟩

/-- What is done with the half that is kept, if it is kept. -/
theorem flatMap_keepIf {α : Type} (s : Span) (v : Verdict) (g : Span → List α) :
    (s.keepIf v).flatMap g = if v.mayContainRoot then g s else [] := by
  unfold keepIf
  split
  · exact List.flatMap_singleton ..
  · rfl

/-- The leaves of a span are those of its surviving halves. -/
theorem leaves_succ (f : Float → Float) (depth : Nat) (s : Span) :
    s.leaves f (depth + 1) = (s.survivors f).value.flatMap (leaves f depth) := by
  rw [value_survivors]
  split
  · next hroot => simp only [leaves, flatMap_keepIf, if_pos hroot, List.append_nil]
  · next hroot => simp only [leaves, List.flatMap_append, flatMap_keepIf, if_neg hroot]

end Span

/-! ## All spans -/

/-- Rounds of bisection leave the leaves of all spans, in order. -/
theorem value_bisectRounds_eq_flatMap_leaves (f : Float → Float) (total left : Nat)
    (spans : List Span) :
    (bisectRounds f total left spans).value = spans.flatMap (Span.leaves f left) := by
  -- Induction on the rounds left; the first of them splits every span once.
  induction left generalizing spans with
  | zero => exact (List.flatMap_singleton' spans).symm
  | succ left ih =>
    rw [value_bisectRounds_succ, ih, value_bisectAll, List.flatMap_assoc]
    exact List.flatMap_congr fun s _ => (Span.leaves_succ f left s).symm

/-- Bisection gives the approximations of all intervals, one block after the other. -/
theorem value_bracketRoots_eq_flatMap (f : Float → Float) (digits rounds : Nat)
    (intervals : List Interval) :
    (bracketRoots f digits rounds intervals).value =
      intervals.flatMap fun i => i.approximations f digits rounds := by
  rw [value_bracketRoots, value_bisectRounds_eq_flatMap_leaves, List.flatMap_map,
    List.map_flatMap]
  rfl

/-! ## Plans -/

namespace BracketSettings

/-- The widest interval decides on the rounds, wherever it stands. -/
theorem roundsToReach_perm {order intervals : List Interval} (h : order.Perm intervals)
    (t : Tolerance) : roundsToReach t order = roundsToReach t intervals := by
  unfold roundsToReach
  rw [(h.map _).foldl_eq]

/-- The order of the intervals does not change how many rounds they need. -/
theorem roundsFor_perm {order intervals : List Interval} (h : order.Perm intervals)
    (settings : BracketSettings) : settings.roundsFor order = settings.roundsFor intervals := by
  unfold roundsFor
  simp only [roundsToReach_perm h]

end BracketSettings

/-- Proper intervals are accepted as they are. -/
theorem mapM_ofBounds (intervals : List Interval) :
    (intervals.map (·.toSpan)).mapM Interval.ofBounds = .ok intervals := by
  induction intervals with
  | nil => rfl
  | cons i rest ih =>
    rw [List.map_cons, List.mapM_cons, Interval.ofBounds_eq_ok.2 rfl, ih]
    rfl

/-- Proper intervals are searched as they are, when there are any and the rounds are
    settled. -/
theorem BracketSettings.plan_map (settings : BracketSettings) (intervals : List Interval) :
    settings.plan (intervals.map (·.toSpan)) =
      (if intervals.isEmpty then .error .noIntervals else settings.roundsFor intervals).map
        fun rounds => (intervals, rounds) := by
  unfold BracketSettings.plan
  cases intervals with
  | nil => rfl
  | cons i rest =>
    rw [mapM_ofBounds]
    show (settings.roundsFor (i :: rest)).bind (fun rounds => .ok (i :: rest, rounds)) = _
    cases settings.roundsFor (i :: rest) <;> rfl

/-! ## Searches -/

/-- A search gives one block of approximations for each interval, in the order of the
    intervals: those of the leaves of a depth-first search of this interval alone, as deep as
    the rounds that the whole list needs.  In another order the intervals need the same rounds
    and have the same blocks, in that order. -/
theorem outcome_findApproximations_eq_blocks (f : Float → Float) (settings : BracketSettings)
    (intervals : List Interval) :
    let rounds? : Except BracketError Nat :=
      if intervals.isEmpty then .error .noIntervals else settings.roundsFor intervals
    (findApproximations f settings (intervals.map (·.toSpan))).outcome =
        rounds?.map (fun rounds =>
          intervals.flatMap fun i => i.approximations f settings.digits rounds) ∧
      ∀ order : List Interval, order.Perm intervals →
        (findApproximations f settings (order.map (·.toSpan))).outcome =
          rounds?.map fun rounds =>
            order.flatMap fun i => i.approximations f settings.digits rounds := by
  have hblocks : ∀ order : List Interval, order.Perm intervals →
      (findApproximations f settings (order.map (·.toSpan))).outcome =
        (if intervals.isEmpty then .error .noIntervals else settings.roundsFor intervals).map
          fun rounds => order.flatMap fun i => i.approximations f settings.digits rounds := by
    intro order h
    -- another order is as empty as this one, and needs as many rounds
    rw [outcome_findApproximations, BracketSettings.plan_map, h.isEmpty_eq,
      BracketSettings.roundsFor_perm h]
    cases (if intervals.isEmpty then .error .noIntervals else settings.roundsFor intervals :
      Except BracketError Nat) with
    | error e => rfl
    | ok rounds => simp only [Except.map, value_bracketRoots_eq_flatMap]
  exact ⟨hblocks intervals (List.Perm.refl _), hblocks⟩

end ScalarRoots
