import ScalarRoots.Refinement.Chebyshev
import ScalarRoots.Refinement.FalsePosition
import ScalarRoots.Refinement.Muller
import ScalarRoots.Refinement.Multipoint
import ScalarRoots.Refinement.Newton
import ScalarRoots.Refinement.Secant

/-! # Refining many seeds

A `Solver` is a method with everything it needs except the seeds.  It refines a
list of seeds one after the other and stops at the first that fails.  Methods
that need more than one start take the offsets to the others from one stream that
begins anew with every batch.

Muller's method refines a whole batch again, from the roots it has reached, as
long as some seed ends in a singular system and restarts are left.

Main statements:

* `Muller.restarts_batch_le`   a batch never restarts more often than it may
-/

namespace ScalarRoots

/-- What became of a batch of seeds. -/
structure Batch where
  /-- One report for each seed, or the error of the first that failed. -/
  outcome : Except RefineError (List Report)
  /-- How often the batch started again. -/
  restarts : Nat

/-- A method with its functions and settings. -/
structure Solver where
  algorithm : Algorithm
  /-- The function whose roots are sought. -/
  target : Float → Float
  /-- Refines a list of seeds. -/
  refineAll : List Float → Traced Event Batch

/-- A batch that is over after one pass. -/
def Batch.ofRun (x : Run RefineError (List Report)) : Traced Event Batch :=
  (⟨·, 0⟩) <$> x.toTraced

/-- A single pass is no restart. -/
@[simp] theorem Batch.value_ofRun (x : Run RefineError (List Report)) :
    (ofRun x).value = ⟨x.outcome, 0⟩ := rfl

/-- Nothing is written but what the pass has written. -/
@[simp] theorem Batch.transcript_ofRun (x : Run RefineError (List Report)) :
    (ofRun x).transcript = x.transcript := by
  simp [ofRun]

/-- Refines pairs of starts: every seed and what lies the next offset away from it. -/
def refinePairs (offsets : Offsets) (refine : Float → Float → Run RefineError Report)
    (seeds : List Float) : Run RefineError (List Report) :=
  (seeds.zip (offsets.stream.take seeds.length)).mapM fun (x, offset) => refine x (x + offset)

/-- Refines every seed by Newton's method. -/
def Newton.solver (f df : Float → Float) (settings : Settings) : Solver where
  algorithm := .newton
  target := f
  refineAll seeds := Batch.ofRun (seeds.mapM (refine f df settings))

/-- Refines every seed by Chebyshev's method. -/
def Chebyshev.solver (f df d2f : Float → Float) (settings : Settings) : Solver where
  algorithm := .chebyshev
  target := f
  refineAll seeds := Batch.ofRun (seeds.mapM (refine f df d2f settings))

/-- Refines every seed by the multipoint iteration. -/
def Multipoint.solver (f df : Float → Float) (settings : MultipointSettings) : Solver where
  algorithm := .multipoint
  target := f
  refineAll seeds := Batch.ofRun (seeds.mapM (refine f df settings))

/-- Refines every seed by the secant method. -/
def Secant.solver (f : Float → Float) (settings : TwoPointSettings) : Solver where
  algorithm := .secant
  target := f
  refineAll seeds :=
    Batch.ofRun (refinePairs settings.offsets.offsets (refine f settings.toSettings) seeds)

/-- Refines every seed by the method of false position. -/
def FalsePosition.solver (f : Float → Float) (settings : TwoPointSettings) : Solver where
  algorithm := .falsePosition
  target := f
  refineAll seeds :=
    Batch.ofRun (refinePairs settings.offsets.offsets (refine f settings.toSettings) seeds)

namespace Muller

/-- Refines every seed once, from itself and from what lies the next two offsets
    away from it. -/
def pass (f : Float → Float) (settings : MullerSettings) (seeds : List Float) :
    Run RefineError (List Report) :=
  (seeds.zip (settings.offsets.offsets.stream.takePairs seeds.length)).mapM
    fun (x, first, second) => refine f settings.toSettings x (x + first) (x + second)

/-- Refines the seeds again and again until no system is singular, for at most
    `left` more restarts after the `done` already made. -/
def batch (f : Float → Float) (settings : MullerSettings) :
    (left done : Nat) → List Float → Traced Event Batch
  | left, done, seeds => do
    match ← (pass f settings seeds).toTraced with
    | .error e => return ⟨.error e, done⟩
    | .ok reports =>
      -- one singular system is enough to refine all seeds again
      let singular := reports.countP (·.isSingular)
      if singular = 0 then
        return ⟨.ok reports, done⟩
      else
        match left with
        | 0 => return ⟨.error (.restartsExhausted done), done⟩
        | left + 1 => do
          log (.restart singular (done + 1) settings.restarts)
          -- every seed goes on from the root it has reached, with the same offsets as before
          batch f settings left (done + 1) (reports.map (·.root.x))

/-- A batch never restarts more often than it may. -/
theorem restarts_batch_le (f : Float → Float) (settings : MullerSettings) (left done : Nat)
    (seeds : List Float) : (batch f settings left done seeds).value.restarts ≤ done + left := by
  -- Induction on the restarts left; each of them is counted once.
  induction left generalizing done seeds with
  | zero =>
    unfold batch
    simp only [Traced.value_bind, Run.value_toTraced]
    split
    · exact Nat.le_refl _
    · split <;> exact Nat.le_refl _
  | succ left ih =>
    unfold batch
    simp only [Traced.value_bind, Run.value_toTraced]
    split
    · exact Nat.le_add_right ..
    · split
      · exact Nat.le_add_right ..
      · exact Nat.le_trans (ih ..) (by omega)

/-- Refines a batch by Muller's method, with restarts. -/
def solver (f : Float → Float) (settings : MullerSettings) : Solver where
  algorithm := .muller
  target := f
  refineAll := batch f settings settings.restarts 0

end Muller

end ScalarRoots
