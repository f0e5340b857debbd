import ScalarRoots.Proofs.Batch.InOrder
import ScalarRoots.Proofs.Offsets
import ScalarRoots.Session

/-!
# A batch refines seed by seed

All methods but Muller's refine the seeds of a batch independently of each other.  What a
session then answers, what it stores and what it evaluates can be told from the refinements
of the single seeds: those of a method that needs two starts begin at the seed and at the
offset with the seed's number away from it.

## Key results

- `SeedMethod.calls`: the refinements that a batch stands for
- `SeedMethod.refineAll_eq`: a batch makes them in order
- `SeedMethod.refineSeeds_seedwise`: what a session makes of them
-/

namespace ScalarRoots

/-- A method that refines every seed on its own, with the derivatives and the settings it
    needs. -/
inductive SeedMethod where
  | newton (df : Float → Float) (settings : Settings)
  | chebyshev (df d2f : Float → Float) (settings : Settings)
  | multipoint (df : Float → Float) (settings : MultipointSettings)
  | secant (settings : TwoPointSettings)
  | falsePosition (settings : TwoPointSettings)

namespace SeedMethod

/-- The solver for roots of `f`. -/
def solver (f : Float → Float) : SeedMethod → Solver
  | newton df settings => Newton.solver f df settings
  | chebyshev df d2f settings => Chebyshev.solver f df d2f settings
  | multipoint df settings => Multipoint.solver f df settings
  | secant settings => Secant.solver f settings
  | falsePosition settings => FalsePosition.solver f settings

/-- The refinement of the seed with number `i`. -/
def call (f : Float → Float) (i : Nat) (x : Float) : SeedMethod → Run RefineError Report
  | newton df settings => Newton.refine f df settings x
  | chebyshev df d2f settings => Chebyshev.refine f df d2f settings x
  | multipoint df settings => Multipoint.refine f df settings x
  | secant settings =>
    Secant.refine f settings.toSettings x (x + settings.offsets.offsets.nth i)
  | falsePosition settings =>
    FalsePosition.refine f settings.toSettings x (x + settings.offsets.offsets.nth i)

/-- The refinements of some seeds, one for each and in their order. -/
def calls (m : SeedMethod) (f : Float → Float) (seeds : List Float) :
    List (Run RefineError Report) :=
  seeds.mapIdx fun i x => m.call f i x

end SeedMethod

/-! ## Batches -/

/-- Seeds that are refined one after the other, for a method that needs no offsets. -/
theorem mapM_eq_inOrder_mapIdx (refine : Float → Run RefineError Report) (seeds : List Float) :
    seeds.mapM refine = Run.inOrder (seeds.mapIdx fun _ x => refine x) := by
  rw [Run.mapM_eq_inOrder]
  congr 1
  exact (List.mapIdx_eq_iff.2 fun _ => List.getElem?_map ..).symm

/-- And for a method that starts from pairs: the offset has the number of the seed. -/
theorem refinePairs_eq_inOrder (o : Offsets) (refine : Float → Float → Run RefineError Report)
    (seeds : List Float) :
    refinePairs o refine seeds =
      Run.inOrder (seeds.mapIdx fun i x => refine x (x + o.nth i)) := by
  unfold refinePairs
  rw [Run.mapM_eq_inOrder, Offsets.map_zip_take]

/-- A batch makes the refinements of its seeds in order. -/
theorem SeedMethod.refineAll_eq (m : SeedMethod) (f : Float → Float) (seeds : List Float) :
    (m.solver f).refineAll seeds = Batch.ofRun (Run.inOrder (m.calls f seeds)) := by
  -- Three methods need one start and two need an offset to a second one.
  cases m with
  | newton df settings => exact congrArg Batch.ofRun (mapM_eq_inOrder_mapIdx ..)
  | chebyshev df d2f settings => exact congrArg Batch.ofRun (mapM_eq_inOrder_mapIdx ..)
  | multipoint df settings => exact congrArg Batch.ofRun (mapM_eq_inOrder_mapIdx ..)
  | secant settings => exact congrArg Batch.ofRun (refinePairs_eq_inOrder ..)
  | falsePosition settings => exact congrArg Batch.ofRun (refinePairs_eq_inOrder ..)

/-! ## Sessions -/

namespace Session

/-- A batch that is over after one pass and succeeds leaves its reports. -/
theorem refineSeeds_of_ok {solver : Solver} {xs : List Float} {t : Transcript} {n : Nat}
    {reports : List Report} (h : solver.refineAll xs = Batch.ofRun ⟨t, n, .ok reports⟩)
    (s : Session) :
    s.refineSeeds solver (.explicit xs) =
      ⟨t ++ [.note (.refined solver.algorithm reports.length)],
        { s with reports := some reports, restarts := 0 }, .ok reports⟩ := by
  simp only [refineSeeds, resolve, h]
  apply Traced.ext
  · simp
  · rfl

/-- A batch that is over after one pass and fails leaves no reports. -/
theorem refineSeeds_of_error {solver : Solver} {xs : List Float} {t : Transcript} {n : Nat}
    {e : RefineError} (h : solver.refineAll xs = Batch.ofRun ⟨t, n, .error e⟩) (s : Session) :
    s.refineSeeds solver (.explicit xs) =
      ⟨t, { s with reports := none, restarts := 0 }, .error (.refinement e)⟩ := by
  simp only [refineSeeds, resolve, h]
  apply Traced.ext
  · simp
  · rfl

end Session

namespace SeedMethod

variable {m : SeedMethod} {f : Float → Float} {xs : List Float}

/-- More seeds at the end add refinements at the end. -/
theorem calls_append (m : SeedMethod) (f : Float → Float) (xs ys : List Float) :
    ∃ later, m.calls f (xs ++ ys) = m.calls f xs ++ later :=
  ⟨_, List.mapIdx_append⟩

/-- So the refinements of some seeds are the first ones of any longer batch. -/
theorem calls_eq_take (m : SeedMethod) (f : Float → Float) (xs ys : List Float) :
    m.calls f xs = (m.calls f (xs ++ ys)).take xs.length := by
  obtain ⟨later, hlater⟩ := m.calls_append f xs ys
  have hlength : xs.length = (m.calls f xs).length := List.length_mapIdx.symm
  rw [hlater, hlength, List.take_left]

/-- Seeds that are all refined give the session their reports. -/
theorem refineSeeds_of_succeed {reports : List Report} (h : Run.Succeed (m.calls f xs) reports)
    (s : Session) :
    s.refineSeeds (m.solver f) (.explicit xs) =
      ⟨(m.calls f xs).flatMap (·.transcript) ++
          [.note (.refined (m.solver f).algorithm reports.length)],
        { s with reports := some reports, restarts := 0 }, .ok reports⟩ := by
  apply Session.refineSeeds_of_ok
  -- all refinements succeed, so the batch is over with their reports
  rw [refineAll_eq, Run.inOrder_of_succeed h]

/-- The first seed that cannot be refined is the last one looked at. -/
theorem refineSeeds_of_failFirst {i : Nat} {e : RefineError}
    (h : Run.FailFirst (m.calls f xs) i e) (s : Session) :
    s.refineSeeds (m.solver f) (.explicit xs) =
      ⟨((m.calls f xs).take (i + 1)).flatMap (·.transcript),
        { s with reports := none, restarts := 0 }, .error (.refinement e)⟩ := by
  apply Session.refineSeeds_of_error
  rw [refineAll_eq, Run.inOrder_of_failFirst h]

/-- A session answers with reports when they are those of its seeds. -/
theorem answer_eq_ok {s : Session} {reports : List Report} :
    (s.refineSeeds (m.solver f) (.explicit xs)).value.2 = .ok reports ↔
      Run.Succeed (m.calls f xs) reports := by
  constructor
  · intro h
    rcases Run.succeed_or_failFirst (m.calls f xs) with ⟨reports', hok⟩ | ⟨i, e, hfail⟩
    · rw [refineSeeds_of_succeed hok] at h
      cases h
      exact hok
    · -- a failure is answered by an error
      rw [refineSeeds_of_failFirst hfail] at h
      cases h
  · intro h
    rw [refineSeeds_of_succeed h]

/-- Refining a batch is refining its seeds, for the five methods that know no restarts, in
    every session.  Either all seeds are refined, and then the session answers with their
    reports in order and stores them; or some seed is the first that fails, and then its error
    is the answer, no report is stored and nothing is evaluated for the seeds after it.  More
    seeds at the end change neither the reports of the others nor a failure of theirs. -/
theorem refineSeeds_seedwise (m : SeedMethod) (f : Float → Float) (s : Session)
    (xs : List Float) :
    ((∃ reports, Run.Succeed (m.calls f xs) reports) ∨
        ∃ i e, Run.FailFirst (m.calls f xs) i e) ∧
      (∀ reports, Run.Succeed (m.calls f xs) reports →
        s.refineSeeds (m.solver f) (.explicit xs) =
          ⟨(m.calls f xs).flatMap (·.transcript) ++
              [.note (.refined (m.solver f).algorithm reports.length)],
            { s with reports := some reports, restarts := 0 }, .ok reports⟩) ∧
      (∀ i e, Run.FailFirst (m.calls f xs) i e →
        s.refineSeeds (m.solver f) (.explicit xs) =
          ⟨((m.calls f xs).take (i + 1)).flatMap (·.transcript),
            { s with reports := none, restarts := 0 }, .error (.refinement e)⟩) ∧
      (∀ (s' : Session) (ys : List Float) (reports : List Report),
        (s'.refineSeeds (m.solver f) (.explicit (xs ++ ys))).value.2 = .ok reports →
          (s.refineSeeds (m.solver f) (.explicit xs)).value.2 =
            .ok (reports.take xs.length)) ∧
      ∀ (ys : List Float) (e : SessionError),
        (s.refineSeeds (m.solver f) (.explicit xs)).value.2 = .error e →
          s.refineSeeds (m.solver f) (.explicit (xs ++ ys)) =
            s.refineSeeds (m.solver f) (.explicit xs) := by
  refine ⟨Run.succeed_or_failFirst _, fun _ h => refineSeeds_of_succeed h s,
    fun _ _ h => refineSeeds_of_failFirst h s, fun s' ys reports h => ?_, fun ys e h => ?_⟩
  · -- the refinements of the seeds are the first ones of the longer batch
    rw [answer_eq_ok] at h ⊢
    rw [m.calls_eq_take f xs ys]
    exact h.take xs.length
  · rcases Run.succeed_or_failFirst (m.calls f xs) with ⟨reports, hok⟩ | ⟨i, e', hfail⟩
    · rw [refineSeeds_of_succeed hok] at h
      cases h
    · -- the first failure is reached before the additional seeds are
      obtain ⟨later, hlater⟩ := m.calls_append f xs ys
      have hlength := hfail.lt_length
      have hfail' := hfail.append later
      rw [← hlater] at hfail'
      rw [refineSeeds_of_failFirst hfail, refineSeeds_of_failFirst hfail', hlater,
        List.take_append_of_le_length hlength]

end SeedMethod

end ScalarRoots
