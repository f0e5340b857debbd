import ScalarRoots.Proofs.Session.Commands
import ScalarRoots.Proofs.Session.Latest

/-!
# A session reflects its history

What a session holds can be told from the commands it was given, without following its
state.  The intervals are those attached last.  The approximations are what the latest
bracketing found in the intervals of its time, and the reports are the answer of the latest
refinement that had seeds to start from; a failure leaves nothing to read.

## Key results

- `Session.intervals_after` / `Session.approximations_after` / `Session.reports_after`: what
  a session holds after some commands
- `Session.after_reflects`: every session reflects its history
- `Session.session_law`: this, and what a command can neither change nor depend on
-/

namespace ScalarRoots

/-! ## Histories -/

/-- The intervals attached last. -/
def lastAttached (commands : List Command) : Option (List Span) :=
  (commands.filterMap Command.attached?).getLast?

namespace Session

/-- The answer to a command that a new session is given after some others. -/
def answer (solver : Solver) (before : List Command) (c : Command) :
    Except SessionError Answer :=
  ((after solver {} before).perform solver c).value.2

/-- The latest bracketing succeeded and found this, in the intervals attached at its time. -/
def LatestBracketing (solver : Solver) (commands : List Command)
    (found : List Approximation) : Prop :=
  ∃ before settings spans,
    IsLatest (fun _ c => c.IsBracketing) commands before (.findApproximations settings) ∧
      answer solver before (.findApproximations settings) = .ok (.approximations found) ∧
      lastAttached before = some spans ∧
      (ScalarRoots.findApproximations solver.target settings spans).outcome = .ok found

/-- The latest refinement that did not fail for want of approximations succeeded, with these
    reports. -/
def LatestRefinement (solver : Solver) (commands : List Command) (reports : List Report) :
    Prop :=
  ∃ before seeds,
    IsLatest (fun before c => c.IsRefinement ∧
        answer solver before c ≠ .error .approximationsNotComputed)
      commands before (.refineSeeds seeds) ∧
    answer solver before (.refineSeeds seeds) = .ok (.reports reports)

/-- What a session has to show for the commands it was given. -/
structure Reflects (solver : Solver) (commands : List Command) (s : Session) : Prop where
  intervals_eq : s.intervals = lastAttached commands
  approximations_iff : ∀ found,
    s.readApproximations = .ok found ↔ LatestBracketing solver commands found
  reports_iff : ∀ reports,
    s.readReports = .ok reports ↔ LatestRefinement solver commands reports

/-! ## Sessions -/

/-- The last command is carried out after the others. -/
theorem after_append_singleton (solver : Solver) (s : Session) (commands : List Command)
    (c : Command) :
    s.after solver (commands ++ [c]) = ((s.after solver commands).perform solver c).value.1 := by
  simp only [after, List.foldl_append, List.foldl_cons, List.foldl_nil]

/-- A session has the intervals that were attached last. -/
theorem intervals_after (solver : Solver) (commands : List Command) :
    (after solver {} commands).intervals = lastAttached commands := by
  -- Induction from the end: only the last command may have attached others.
  induction commands using List.reverseRecOn with
  | nil => rfl
  | append_singleton commands c ih =>
    rw [after_append_singleton, intervals_perform, ih]
    cases c with
    | attach intervals => simp [lastAttached, Command.attached?]
    | findApproximations settings => simp [lastAttached, Command.attached?]
    | refineSeeds seeds => simp [lastAttached, Command.attached?]

/-- The approximations of a session are what the latest bracketing found. -/
theorem approximations_after (solver : Solver) (commands : List Command)
    (found : List Approximation) :
    (after solver {} commands).approximations = some found ↔
      LatestBracketing solver commands found := by
  -- The approximations are a register that every bracketing overwrites.
  have hwrite : ∀ l c, Command.IsBracketing c →
      (after solver {} (l ++ [c])).approximations = approximations? (answer solver l c) := by
    intro l c hc
    rw [after_append_singleton]
    exact approximations_perform_of_isBracketing hc
  -- and that no other command touches
  have hkeep : ∀ l c, ¬ Command.IsBracketing c →
      (after solver {} (l ++ [c])).approximations = (after solver {} l).approximations := by
    intro l c hc
    rw [after_append_singleton]
    exact approximations_perform hc
  have hregister := eq_some_iff_isLatest (g := fun l => (after solver {} l).approximations)
    (p := fun _ c => c.IsBracketing) rfl hwrite hkeep commands found
  refine hregister.trans ⟨?_, ?_⟩
  · intro h
    obtain ⟨before, c, hlatest, hfound⟩ := h
    obtain ⟨settings, rfl⟩ := hlatest.property
    have hanswer := approximations?_eq_some.1 hfound
    obtain ⟨spans, hspans, houtcome⟩ := answer_findApproximations_eq_ok.1 hanswer
    rw [intervals_after] at hspans
    exact ⟨before, settings, spans, hlatest, hanswer, hspans, houtcome⟩
  · intro h
    obtain ⟨before, settings, spans, hlatest, hanswer, -⟩ := h
    exact ⟨before, _, hlatest, approximations?_eq_some.2 hanswer⟩

/-- The reports of a session are the answer of the latest refinement that had seeds. -/
theorem reports_after (solver : Solver) (commands : List Command) (reports : List Report) :
    (after solver {} commands).reports = some reports ↔
      LatestRefinement solver commands reports := by
  -- The reports are a register too; whether a refinement overwrites it depends on the past.
  have hwrite : ∀ l c, Command.IsRefinement c ∧
        answer solver l c ≠ .error .approximationsNotComputed →
      (after solver {} (l ++ [c])).reports = reports? (answer solver l c) := by
    intro l c hc
    rw [after_append_singleton]
    exact reports_perform_of_isRefinement hc.1 hc.2
  have hkeep : ∀ l c, ¬ (Command.IsRefinement c ∧
        answer solver l c ≠ .error .approximationsNotComputed) →
      (after solver {} (l ++ [c])).reports = (after solver {} l).reports := by
    intro l c hc
    rw [after_append_singleton]
    by_cases hrefine : c.IsRefinement
    · -- a refinement that does not count had no seeds
      obtain ⟨seeds, rfl⟩ := hrefine
      have hanswer : answer solver l (.refineSeeds seeds) =
          .error .approximationsNotComputed := by
        by_cases h : answer solver l (.refineSeeds seeds) = .error .approximationsNotComputed
        · exact h
        · exact absurd ⟨⟨seeds, rfl⟩, h⟩ hc
      rw [perform_of_approximationsNotComputed hanswer]
    · exact reports_perform hrefine
  have hregister := eq_some_iff_isLatest (g := fun l => (after solver {} l).reports)
    rfl hwrite hkeep commands reports
  refine hregister.trans ⟨?_, ?_⟩
  · intro h
    obtain ⟨before, c, hlatest, hreports⟩ := h
    obtain ⟨⟨seeds, rfl⟩, -⟩ := hlatest.property
    exact ⟨before, seeds, hlatest, reports?_eq_some.1 hreports⟩
  · intro h
    obtain ⟨before, seeds, hlatest, hanswer⟩ := h
    exact ⟨before, _, hlatest, reports?_eq_some.2 hanswer⟩

/-- Every session reflects its history. -/
theorem after_reflects (solver : Solver) (commands : List Command) :
    (after solver {} commands).Reflects solver commands where
  intervals_eq := intervals_after solver commands
  approximations_iff found := by
    rw [← approximations_after]
    unfold readApproximations
    split
    · next h => simp [h]
    · next h => simp [h]
  reports_iff reports := by
    rw [← reports_after]
    unfold readReports
    split
    · next h => simp [h]
    · next h => simp [h]

/-- The law of sessions, for every solver and every list of commands.  A session reflects its
    history.  Each of the three things it holds is changed by one kind of command only, and a
    refinement without seeds, which asks for approximations that are not there, changes
    nothing.  A refinement of explicit seeds answers the same in every session, and
    approximations that are there are as good as their locations. -/
theorem session_law (solver : Solver) (commands : List Command) :
    (after solver {} commands).Reflects solver commands ∧
      (∀ (s : Session) (c : Command),
        (c.attached? = none → (s.perform solver c).value.1.intervals = s.intervals) ∧
        (¬ c.IsBracketing →
          (s.perform solver c).value.1.approximations = s.approximations) ∧
        (¬ c.IsRefinement → (s.perform solver c).value.1.reports = s.reports)) ∧
      (∀ (s : Session) (seeds : Seeds),
        ((s.perform solver (.refineSeeds seeds)).value.2 = .error .approximationsNotComputed ↔
          seeds = .approximations ∧ s.approximations = none) ∧
        ((s.perform solver (.refineSeeds seeds)).value.2 = .error .approximationsNotComputed →
          (s.perform solver (.refineSeeds seeds)).value.1 = s)) ∧
      (∀ (s : Session) (xs : List Float),
        (s.perform solver (.refineSeeds (.explicit xs))).value.2 =
          ((solver.refineAll xs).value.outcome.mapError .refinement).map .reports) ∧
      (∀ (s : Session) (found : List Approximation), s.approximations = some found →
        s.perform solver (.refineSeeds .approximations) =
          s.perform solver (.refineSeeds (.explicit (found.map (·.location))))) := by
  refine ⟨after_reflects solver commands, fun s c => ⟨fun hc => ?_, approximations_perform,
    reports_perform⟩, fun s seeds => ⟨answer_eq_approximationsNotComputed,
    perform_of_approximationsNotComputed⟩, fun s xs => ?_,
    fun s found => perform_refineSeeds_approximations⟩
  · rw [intervals_perform, hc]
    rfl
  · exact answer_refineSeeds_explicit solver s xs

end Session

end ScalarRoots
