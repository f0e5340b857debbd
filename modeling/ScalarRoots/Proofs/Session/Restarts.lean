import ScalarRoots.Proofs.Batch.Restarts
import ScalarRoots.Proofs.Session.History

/-!
# The restarts that a session remembers

A session of Muller's method remembers how often a batch started again.  Every refinement that has
seeds leaves the number of restarts that it announced, whether it succeeds or fails.  One that has
none announces nothing, but it leaves the number that was there before; so the number is that of
the latest refinement with seeds, which need not be the latest refinement.

## Key results

- `Muller.length_restarts_refineAll`: a batch announces as many restarts as it counts
- `Session.HasSeeds`: a refinement that has seeds to start from
- `Session.restarts_perform_of_hasSeeds` / `Session.restarts_perform_of_not_hasSeeds`: what a
  command leaves
- `Session.restarts_after_latest`: what a session remembers after some commands
- `Session.restarts_law`: this, and when a refinement leaves its own number
-/

namespace ScalarRoots

/-- A batch announces as many restarts as it counts. -/
theorem Muller.length_restarts_refineAll (f : Float → Float) (settings : MullerSettings)
    (xs : List Float) :
    (Transcript.restarts ((solver f settings).refineAll xs).transcript).length =
      ((solver f settings).refineAll xs).value.restarts := by
  obtain ⟨later, hcourse⟩ := exists_course f settings (Nat.zero_add _) xs
  have hannounced := congrArg List.length hcourse.restarts_transcript
  rw [List.length_map, List.length_range'] at hannounced
  have hcounted := hcourse.restarts_eq
  rw [Nat.zero_add] at hcounted
  exact hannounced.trans hcounted.symm

namespace Session

/-- After some commands, a refinement has seeds to start from. -/
def HasSeeds (solver : Solver) (before : List Command) (c : Command) : Prop :=
  c.IsRefinement ∧ answer solver before c ≠ .error .approximationsNotComputed

/-- How many restarts are announced while a command is carried out after some others. -/
def announced (solver : Solver) (before : List Command) (c : Command) : Nat :=
  (Transcript.restarts ((after solver {} before).perform solver c).transcript).length

/-! ## Commands -/

/-- A refinement without seeds does nothing, and one with seeds refines them and announces that
    it is done. -/
theorem transcript_perform_refineSeeds (solver : Solver) (s : Session) (seeds : Seeds) :
    (s.perform solver (.refineSeeds seeds)).transcript =
      match s.resolve seeds with
      | .error _ => []
      | .ok xs =>
        (solver.refineAll xs).transcript ++
          match (solver.refineAll xs).value.outcome with
          | .error _ => []
          | .ok reports => [.note (.refined solver.algorithm reports.length)] := by
  simp only [perform, Traced.transcript_map, refineSeeds]
  cases s.resolve seeds with
  | error e => rfl
  | ok xs =>
    simp only [Traced.transcript_bind]
    cases (solver.refineAll xs).value.outcome with
    | error e => rfl
    | ok reports => rfl

/-- The restarts that it announces are those of the batch. -/
theorem restarts_transcript_refineSeeds {solver : Solver} {s : Session} {seeds : Seeds}
    {xs : List Float} (hxs : s.resolve seeds = .ok xs) :
    Transcript.restarts (s.perform solver (.refineSeeds seeds)).transcript =
      Transcript.restarts (solver.refineAll xs).transcript := by
  rw [transcript_perform_refineSeeds, hxs]
  simp only [Transcript.restarts_append]
  cases (solver.refineAll xs).value.outcome with
  | error e => exact List.append_nil _
  | ok reports => exact List.append_nil _

/-- A refinement with seeds leaves the number of its batch, whether it succeeds or not. -/
theorem restarts_perform_refineSeeds {solver : Solver} {s : Session} {seeds : Seeds}
    {xs : List Float} (hxs : s.resolve seeds = .ok xs) :
    (s.perform solver (.refineSeeds seeds)).value.1.restarts =
      (solver.refineAll xs).value.restarts := by
  rw [value_perform_refineSeeds, hxs]
  simp only
  split <;> rfl

/-- Only a refinement changes the number of restarts. -/
theorem restarts_perform {solver : Solver} {s : Session} {c : Command} (hc : ¬ c.IsRefinement) :
    (s.perform solver c).value.1.restarts = s.restarts := by
  cases c with
  | attach intervals => rfl
  | findApproximations settings =>
    rw [value_perform_findApproximations]
    split
    · rfl
    · split <;> rfl
  | refineSeeds seeds => exact absurd ⟨seeds, rfl⟩ hc

/-- The seeds of a refinement that has some. -/
theorem HasSeeds.exists_resolve {solver : Solver} {before : List Command} {c : Command}
    (h : HasSeeds solver before c) :
    ∃ seeds xs, c = .refineSeeds seeds ∧ (after solver {} before).resolve seeds = .ok xs := by
  obtain ⟨⟨seeds, rfl⟩, hanswer⟩ := h
  cases hxs : (after solver {} before).resolve seeds with
  | ok xs => exact ⟨seeds, xs, rfl, hxs⟩
  | error e =>
    -- without seeds the answer would be the one that is excluded
    obtain ⟨hseeds, hnone, -⟩ := resolve_eq_error.1 hxs
    exact absurd (answer_eq_approximationsNotComputed.2 ⟨hseeds, hnone⟩) hanswer

/-- A refinement without seeds fails for want of approximations. -/
theorem answer_of_not_hasSeeds {solver : Solver} {before : List Command} {seeds : Seeds}
    (h : ¬ HasSeeds solver before (.refineSeeds seeds)) :
    answer solver before (.refineSeeds seeds) = .error .approximationsNotComputed := by
  by_contra hanswer
  exact h ⟨⟨seeds, rfl⟩, hanswer⟩

/-- A refinement without seeds announces no restarts. -/
theorem announced_of_not_hasSeeds {solver : Solver} {before : List Command} {seeds : Seeds}
    (h : ¬ HasSeeds solver before (.refineSeeds seeds)) :
    announced solver before (.refineSeeds seeds) = 0 := by
  obtain ⟨hseeds, hnone⟩ := answer_eq_approximationsNotComputed.1 (answer_of_not_hasSeeds h)
  rw [announced, transcript_perform_refineSeeds, resolve_eq_error.2 ⟨hseeds, hnone, rfl⟩]
  rfl

/-- Without seeds to refine, a command keeps the number of restarts. -/
theorem restarts_perform_of_not_hasSeeds {solver : Solver} {before : List Command} {c : Command}
    (h : ¬ HasSeeds solver before c) :
    ((after solver {} before).perform solver c).value.1.restarts =
      (after solver {} before).restarts := by
  by_cases hc : c.IsRefinement
  · obtain ⟨seeds, rfl⟩ := hc
    rw [perform_of_approximationsNotComputed (answer_of_not_hasSeeds h)]
  · exact restarts_perform hc

/-! ## Sessions -/

section Muller

variable (f : Float → Float) (settings : MullerSettings)

/-- A refinement that has seeds leaves the number of restarts that it announced. -/
theorem restarts_perform_of_hasSeeds {before : List Command} {c : Command}
    (h : HasSeeds (Muller.solver f settings) before c) :
    let solver := Muller.solver f settings
    ((after solver {} before).perform solver c).value.1.restarts = announced solver before c := by
  intro solver
  obtain ⟨seeds, xs, rfl, hxs⟩ := h.exists_resolve
  rw [restarts_perform_refineSeeds hxs, announced, restarts_transcript_refineSeeds hxs,
    Muller.length_restarts_refineAll]

/-- What a session remembers is the number of the latest refinement that had seeds. -/
theorem restarts_after_latest (commands : List Command) :
    let solver := Muller.solver f settings
    (∃ before c, IsLatest (HasSeeds solver) commands before c ∧
        (after solver {} commands).restarts = announced solver before c) ∨
      (¬ ∃ before c, IsLatest (HasSeeds solver) commands before c) ∧
        (after solver {} commands).restarts = 0 := by
  intro solver
  -- Induction from the end, where the number was overwritten or kept.
  induction commands using List.reverseRecOn with
  | nil => exact .inr ⟨fun ⟨_, _, h⟩ => not_isLatest_nil h, rfl⟩
  | append_singleton commands c ih =>
    rw [after_append_singleton]
    by_cases hc : HasSeeds solver commands c
    · exact .inl ⟨commands, c, (isLatest_append_of_pos hc).2 ⟨rfl, rfl⟩,
        restarts_perform_of_hasSeeds f settings hc⟩
    · -- the command has no seeds: the latest one that had some is still the same
      rw [restarts_perform_of_not_hasSeeds hc]
      simpa only [isLatest_append_of_neg hc] using ih

/-- The restarts that a session of Muller's method remembers, after any commands.  A refinement
    that has seeds, whether it succeeds or fails, leaves the number of restarts that it announced
    itself.  One without seeds, which fails for want of approximations, announces none and leaves
    the number that was there.  So a refinement leaves its own number exactly if it has seeds, or
    if there was no restart to remember before.  No other command changes the number.  And it is
    always that of the latest refinement that had seeds, or zero if there was none. -/
theorem restarts_law (commands : List Command) :
    let solver := Muller.solver f settings
    let s := after solver {} commands
    (∀ seeds, HasSeeds solver commands (.refineSeeds seeds) →
        (s.perform solver (.refineSeeds seeds)).value.1.restarts =
          announced solver commands (.refineSeeds seeds)) ∧
      (∀ seeds, (s.perform solver (.refineSeeds seeds)).value.1.restarts =
          announced solver commands (.refineSeeds seeds) ↔
        HasSeeds solver commands (.refineSeeds seeds) ∨ s.restarts = 0) ∧
      (∀ c, ¬ HasSeeds solver commands c →
        (s.perform solver c).value.1.restarts = s.restarts) ∧
      ((∃ before c, IsLatest (HasSeeds solver) commands before c ∧
          s.restarts = announced solver before c) ∨
        (¬ ∃ before c, IsLatest (HasSeeds solver) commands before c) ∧ s.restarts = 0) := by
  intro solver s
  refine ⟨fun seeds => restarts_perform_of_hasSeeds f settings, fun seeds => ?_,
    fun c => restarts_perform_of_not_hasSeeds, restarts_after_latest f settings commands⟩
  by_cases hseeds : HasSeeds solver commands (.refineSeeds seeds)
  · exact iff_of_true (restarts_perform_of_hasSeeds f settings hseeds) (.inl hseeds)
  · -- its own number is zero, so it is left there only by chance
    rw [restarts_perform_of_not_hasSeeds hseeds, announced_of_not_hasSeeds hseeds,
      or_iff_right hseeds]

/-- A refinement without seeds can leave a number that is not its own.  Where two of the three
    starts coincide, the seed zero uses up both restarts; then approximations are asked for that
    are not there, and the two restarts are remembered still. -/
theorem exists_restarts_kept :
    let solver := Muller.solver (fun x => x * x + 1)
      { offsets := ⟨.alternating 0.5 0.5, by decide⟩, restarts := 2 }
    let s := after solver {} [.refineSeeds (.explicit [0])]
    announced solver [.refineSeeds (.explicit [0])] (.refineSeeds .approximations) = 0 ∧
      (s.perform solver (.refineSeeds .approximations)).value.1.restarts = 2 := by
  decide +kernel

end Muller

end Session

end ScalarRoots
