import ScalarRoots.Refinement.Error
import ScalarRoots.Settings

/-! # The iteration that all refinements share

A `Scheme` says what is particular to a method: what its state means and how a
state leads to the next.  `iterate` runs any scheme in the same way.  It first
tests the tolerance, then the number of iterations left, and only then takes a
step; and it keeps the best point seen, which is what it offers if the
iterations run out.

Main statements:

* `iterate_of_met`       a state that meets a tolerance ends the iteration at once
* `iterate_exhausted`    without iterations left the best point is given
* `iterate_succ`         otherwise the next step decides
* `iterate_induction`    so what holds in these three cases holds of any iteration
-/

namespace ScalarRoots

/-- What a step does. -/
inductive Advance (σ : Type) where
  /-- The iteration goes on from `next`. -/
  | moved (next : σ)
  /-- `next` is the result, because the step to it was small. -/
  | accepted (next : σ)
  /-- There is no step to take. -/
  | stuck
deriving Repr

/-- A method, as the shared iteration sees it. -/
structure Scheme (σ : Type) where
  algorithm : Algorithm
  /-- The newest point of a state. -/
  newest : σ → Point Float
  /-- The points that the next update is made from, or the last one was. -/
  stencil : σ → Stencil
  /-- The tolerance that a state meets, if it meets one. -/
  criterion? : σ → Option Criterion
  /-- The step with the given number. -/
  step : Nat → σ → Run RefineError (Advance σ)

/-- Where an iteration ended. -/
structure Finish where
  root : Point Float
  iterations : Nat
  reason : Reason
  /-- The tolerance that was met, if one was. -/
  met : Option Criterion
  stencil : Stencil
deriving Repr

variable {σ : Type}

/-- Runs a scheme from a state, for at most `left` more steps after the `done`
    already taken.  `best` is the best point so far, and `start` where it all
    began. -/
def iterate (m : Scheme σ) (start : Stencil) :
    (left done : Nat) → (best : Point Float) → σ → Run RefineError Finish
  | left, done, best, s =>
    -- the tolerance is tested first, so a root at the start takes no step
    match m.criterion? s with
    | some c => return ⟨m.newest s, done, .toleranceReached, some c, m.stencil s⟩
    | none =>
      match left with
      | 0 => do
        log (.noConvergence m.algorithm start done)
        return ⟨best, done, .iterationLimit, none, m.stencil s⟩
      | left + 1 => do
        match ← m.step (done + 1) s with
        | .moved next => iterate m start left (done + 1) (best.better (m.newest next)) next
        | .accepted next =>
          return ⟨m.newest next, done + 1, .toleranceReached, some .step, m.stencil next⟩
        | .stuck => return ⟨m.newest s, done, .singularSystem, none, m.stencil s⟩

/-- A state that meets a tolerance ends the iteration at once. -/
theorem iterate_of_met {m : Scheme σ} {s : σ} {c : Criterion} (h : m.criterion? s = some c)
    (start : Stencil) (left done : Nat) (best : Point Float) :
    iterate m start left done best s =
      pure ⟨m.newest s, done, .toleranceReached, some c, m.stencil s⟩ := by
  unfold iterate
  simp only [h]

/-- Without iterations left the best point is given, and that is logged. -/
theorem iterate_exhausted {m : Scheme σ} {s : σ} (h : m.criterion? s = none)
    (start : Stencil) (done : Nat) (best : Point Float) :
    iterate m start 0 done best s = do
      log (.noConvergence m.algorithm start done)
      return ⟨best, done, .iterationLimit, none, m.stencil s⟩ := by
  unfold iterate
  simp only [h]

/-- Otherwise the next step decides. -/
theorem iterate_succ {m : Scheme σ} {s : σ} (h : m.criterion? s = none)
    (start : Stencil) (left done : Nat) (best : Point Float) :
    iterate m start (left + 1) done best s = do
      match ← m.step (done + 1) s with
      | .moved next => iterate m start left (done + 1) (best.better (m.newest next)) next
      | .accepted next =>
        return ⟨m.newest next, done + 1, .toleranceReached, some .step, m.stencil next⟩
      | .stuck => return ⟨m.newest s, done, .singularSystem, none, m.stencil s⟩ := by
  rw [iterate]
  simp only [h]

/-- Induction along an iteration: a tolerance is met, no iterations are left, or a step is
    taken and may be followed by the rest of the iteration. -/
theorem iterate_induction {m : Scheme σ} {start : Stencil}
    {motive : (left done : Nat) → (best : Point Float) → σ → Run RefineError Finish → Prop}
    (met : ∀ left done best s c, m.criterion? s = some c →
      motive left done best s (pure ⟨m.newest s, done, .toleranceReached, some c, m.stencil s⟩))
    (exhausted : ∀ done best s, m.criterion? s = none →
      motive 0 done best s (do
        log (.noConvergence m.algorithm start done)
        return ⟨best, done, .iterationLimit, none, m.stencil s⟩))
    (step : ∀ left done best s, m.criterion? s = none →
      (∀ best next, motive left (done + 1) best next
        (iterate m start left (done + 1) best next)) →
      motive (left + 1) done best s (do
        match ← m.step (done + 1) s with
        | .moved next => iterate m start left (done + 1) (best.better (m.newest next)) next
        | .accepted next =>
        return ⟨m.newest next, done + 1, .toleranceReached, some .step, m.stencil next⟩
        | .stuck => return ⟨m.newest s, done, .singularSystem, none, m.stencil s⟩))
    (left done : Nat) (best : Point Float) (s : σ) :
    motive left done best s (iterate m start left done best s) := by
  -- Induction on the steps left, in the three cases of an iteration.
  induction left generalizing done best s with
  | zero =>
    cases hc : m.criterion? s with
    | some c => exact iterate_of_met hc start 0 done best ▸ met 0 done best s c hc
    | none => exact iterate_exhausted hc start done best ▸ exhausted done best s hc
  | succ left ih =>
    cases hc : m.criterion? s with
    | some c => exact iterate_of_met hc start (left + 1) done best ▸ met (left + 1) done best s c hc
    | none =>
      exact iterate_succ hc start left done best ▸ step left done best s hc (ih (done + 1))

/-- The report on where an iteration ended. -/
def Finish.report (a : Algorithm) (fin : Finish) (evaluations : Nat) : Report where
  algorithm := a
  root := fin.root
  iterations := fin.iterations
  evaluations := evaluations
  reason := fin.reason
  met := fin.met
  stencil := fin.stencil

/-- Runs a scheme from its start within the number of iterations that the settings
    allow, and reports on it.  The evaluations are what the counter says at the end,
    after it has gone from zero through the start and all of the steps. -/
def refine (m : Scheme σ) (settings : Settings) (start : Run RefineError σ) :
    Run RefineError Report :=
  let budget := m.algorithm.budget (settings.iterations.map (·.toNat))
  let run := do
    let s ← start
    iterate m (m.stencil s) budget 0 (m.newest s) s
  run.counted (Finish.report m.algorithm)

end ScalarRoots
