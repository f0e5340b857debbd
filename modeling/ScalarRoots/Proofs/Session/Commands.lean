import ScalarRoots.Session

/-!
# What a command does to a session

For every command, what it leaves in the session and what it answers.  Each of the things
that a session holds is changed by one kind of command only, and what that command leaves
can be read off its answer.

## Key results

- `Session.value_perform_findApproximations` / `Session.value_perform_refineSeeds`: the
  session and the answer, case by case
- `Session.intervals_perform` / `Session.approximations_perform` / `Session.reports_perform`:
  what changes the parts of a session
- `Session.perform_of_approximationsNotComputed`: a refinement without seeds changes nothing
- `Session.perform_refineSeeds_approximations`: approximations are as good as their locations
-/

namespace ScalarRoots

/-! ## Kinds of commands and answers -/

/-- The intervals that a command attaches. -/
def Command.attached? : Command → Option (List Span)
  | attach intervals => some intervals
  | findApproximations _ => none
  | refineSeeds _ => none

/-- A command that brackets roots. -/
def Command.IsBracketing (c : Command) : Prop := ∃ settings, c = findApproximations settings

/-- A command that refines seeds. -/
def Command.IsRefinement (c : Command) : Prop := ∃ seeds, c = refineSeeds seeds

namespace Session

/-- The approximations in an answer. -/
def approximations? : Except SessionError Answer → Option (List Approximation)
  | .ok (.approximations found) => some found
  | _ => none

/-- The reports in an answer. -/
def reports? : Except SessionError Answer → Option (List Report)
  | .ok (.reports reports) => some reports
  | _ => none

/-- Only the answer to a bracketing has approximations in it. -/
theorem approximations?_eq_some {a : Except SessionError Answer}
    {found : List Approximation} :
    approximations? a = some found ↔ a = .ok (.approximations found) := by
  unfold approximations?
  split
  · simp
  · next h => exact ⟨nofun, fun ha => absurd ha (h found)⟩

/-- Only the answer to a refinement has reports in it. -/
theorem reports?_eq_some {a : Except SessionError Answer} {reports : List Report} :
    reports? a = some reports ↔ a = .ok (.reports reports) := by
  unfold reports?
  split
  · simp
  · next h => exact ⟨nofun, fun ha => absurd ha (h reports)⟩

/-! ## Sessions and answers -/

/-- What bracketing does to a session, and what it answers. -/
theorem value_perform_findApproximations (solver : Solver) (s : Session)
    (settings : BracketSettings) :
    (s.perform solver (.findApproximations settings)).value =
      match s.intervals with
      | none => ({ s with approximations := none }, .error .intervalsNotSet)
      | some spans =>
        match (ScalarRoots.findApproximations solver.target settings spans).outcome with
        | .error e => ({ s with approximations := none }, .error (.bracketing e))
        | .ok found => ({ s with approximations := some found }, .ok (.approximations found)) := by
  simp only [perform, Traced.value_map, findApproximations]
  -- there may be no intervals, and no root to be found in those there are
  cases s.intervals with
  | none => rfl
  | some spans =>
    simp only [Traced.value_bind, Run.value_toTraced]
    cases (ScalarRoots.findApproximations solver.target settings spans).outcome with
    | error e => rfl
    | ok found => rfl

/-- What a refinement does to a session, and what it answers. -/
theorem value_perform_refineSeeds (solver : Solver) (s : Session) (seeds : Seeds) :
    (s.perform solver (.refineSeeds seeds)).value =
      match s.resolve seeds with
      | .error e => (s, .error e)
      | .ok xs =>
        let batch := (solver.refineAll xs).value
        match batch.outcome with
        | .error e =>
          ({ s with reports := none, restarts := batch.restarts }, .error (.refinement e))
        | .ok reports =>
          ({ s with reports := some reports, restarts := batch.restarts },
            .ok (.reports reports)) := by
  simp only [perform, Traced.value_map, refineSeeds]
  -- without seeds the solver is not asked, so the reports and restarts stay
  cases s.resolve seeds with
  | error e => rfl
  | ok xs =>
    simp only [Traced.value_bind]
    cases (solver.refineAll xs).value.outcome with
    | error e => rfl
    | ok reports => rfl

/-- There are seeds to refine unless they are approximations that are not there. -/
theorem resolve_eq_error {s : Session} {seeds : Seeds} {e : SessionError} :
    s.resolve seeds = .error e ↔
      seeds = .approximations ∧ s.approximations = none ∧ e = .approximationsNotComputed := by
  -- explicit seeds are always there; approximations may be missing
  cases seeds with
  | explicit xs => exact ⟨nofun, nofun⟩
  | approximations =>
    unfold resolve readApproximations
    cases s.approximations with
    | none =>
      constructor
      · intro h
        exact ⟨rfl, rfl, (Except.error.inj h).symm⟩
      · intro h
        rw [h.2.2]
        rfl
    | some found => exact ⟨nofun, nofun⟩

/-- A refinement fails for want of approximations when there are no seeds to refine. -/
theorem answer_eq_approximationsNotComputed {solver : Solver} {s : Session} {seeds : Seeds} :
    (s.perform solver (.refineSeeds seeds)).value.2 = .error .approximationsNotComputed ↔
      seeds = .approximations ∧ s.approximations = none := by
  rw [value_perform_refineSeeds]
  cases hxs : s.resolve seeds with
  | error e =>
    obtain ⟨hseeds, hnone, rfl⟩ := resolve_eq_error.1 hxs
    simp [hseeds, hnone]
  | ok xs =>
    -- with seeds to refine, a failure is one of the refinement itself
    have hne : ¬ (seeds = .approximations ∧ s.approximations = none) := by
      intro h
      rw [resolve_eq_error.2 ⟨h.1, h.2, rfl⟩] at hxs
      cases hxs
    simp only [hne, iff_false]
    cases (solver.refineAll xs).value.outcome with
    | error e => simp
    | ok reports => simp

/-- Only attaching intervals changes them. -/
theorem intervals_perform (solver : Solver) (s : Session) (c : Command) :
    (s.perform solver c).value.1.intervals = c.attached?.or s.intervals := by
  cases c with
  | attach intervals => rfl
  | findApproximations settings =>
    rw [value_perform_findApproximations]
    split
    · rfl
    · split <;> rfl
  | refineSeeds seeds =>
    rw [value_perform_refineSeeds]
    split
    · rfl
    · simp only
      split <;> rfl

/-- Only bracketing changes the approximations. -/
theorem approximations_perform {solver : Solver} {s : Session} {c : Command}
    (hc : ¬ c.IsBracketing) :
    (s.perform solver c).value.1.approximations = s.approximations := by
  cases c with
  | attach intervals => rfl
  | findApproximations settings => exact absurd ⟨settings, rfl⟩ hc
  | refineSeeds seeds =>
    rw [value_perform_refineSeeds]
    split
    · rfl
    · simp only
      split <;> rfl

/-- Bracketing leaves the approximations that it answers with. -/
theorem approximations_perform_of_isBracketing {solver : Solver} {s : Session} {c : Command}
    (hc : c.IsBracketing) :
    (s.perform solver c).value.1.approximations =
      approximations? (s.perform solver c).value.2 := by
  obtain ⟨settings, rfl⟩ := hc
  rw [value_perform_findApproximations]
  split
  · rfl
  · split <;> rfl

/-- Bracketing succeeds when there are intervals in which it can find roots. -/
theorem answer_findApproximations_eq_ok {solver : Solver} {s : Session}
    {settings : BracketSettings} {found : List Approximation} :
    (s.perform solver (.findApproximations settings)).value.2 = .ok (.approximations found) ↔
      ∃ spans, s.intervals = some spans ∧
        (ScalarRoots.findApproximations solver.target settings spans).outcome = .ok found := by
  rw [value_perform_findApproximations]
  -- the intervals that are there are the only ones to speak of
  cases s.intervals with
  | none => simp
  | some spans =>
    simp only [Option.some.injEq, exists_eq_left']
    split
    · next h => simp [h]
    · next h => simp [h]

/-- Only a refinement changes the reports. -/
theorem reports_perform {solver : Solver} {s : Session} {c : Command}
    (hc : ¬ c.IsRefinement) : (s.perform solver c).value.1.reports = s.reports := by
  cases c with
  | attach intervals => rfl
  | findApproximations settings =>
    rw [value_perform_findApproximations]
    split
    · rfl
    · split <;> rfl
  | refineSeeds seeds => exact absurd ⟨seeds, rfl⟩ hc

/-- A refinement that has seeds leaves the reports that it answers with. -/
theorem reports_perform_of_isRefinement {solver : Solver} {s : Session} {c : Command}
    (hc : c.IsRefinement)
    (hanswer : (s.perform solver c).value.2 ≠ .error .approximationsNotComputed) :
    (s.perform solver c).value.1.reports = reports? (s.perform solver c).value.2 := by
  obtain ⟨seeds, rfl⟩ := hc
  rw [value_perform_refineSeeds] at hanswer ⊢
  split
  · -- without seeds the answer would be the one that is excluded
    next hseeds =>
    obtain ⟨-, -, rfl⟩ := resolve_eq_error.1 hseeds
    rw [hseeds] at hanswer
    exact absurd rfl hanswer
  · simp only
    split <;> rfl

/-- A refinement that fails for want of approximations changes nothing. -/
theorem perform_of_approximationsNotComputed {solver : Solver} {s : Session} {seeds : Seeds}
    (h : (s.perform solver (.refineSeeds seeds)).value.2 =
      .error .approximationsNotComputed) :
    (s.perform solver (.refineSeeds seeds)).value.1 = s := by
  obtain ⟨hseeds, hnone⟩ := answer_eq_approximationsNotComputed.1 h
  rw [value_perform_refineSeeds, resolve_eq_error.2 ⟨hseeds, hnone, rfl⟩]

/-- The answer to a refinement of explicit seeds is that of the solver, in every session. -/
theorem answer_refineSeeds_explicit (solver : Solver) (s : Session) (xs : List Float) :
    (s.perform solver (.refineSeeds (.explicit xs))).value.2 =
      ((solver.refineAll xs).value.outcome.mapError .refinement).map .reports := by
  rw [value_perform_refineSeeds]
  simp only [resolve]
  cases (solver.refineAll xs).value.outcome with
  | error e => rfl
  | ok reports => rfl

/-- Approximations that are there are as good as their locations given as seeds. -/
theorem perform_refineSeeds_approximations {solver : Solver} {s : Session}
    {found : List Approximation} (h : s.approximations = some found) :
    s.perform solver (.refineSeeds .approximations) =
      s.perform solver (.refineSeeds (.explicit (found.map (·.location)))) := by
  have hseeds : s.resolve .approximations = s.resolve (.explicit (found.map (·.location))) := by
    simp only [resolve, readApproximations, h]
    rfl
  -- the two commands differ in nothing but how their seeds are found
  simp only [perform, refineSeeds, hseeds]

end Session

end ScalarRoots
