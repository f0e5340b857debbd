import ScalarRoots.Refinement.Iteration

/-!
# The course of an iteration

An iteration goes from state to state as long as no tolerance is met, and keeps the best
point on its way.  `Scheme.Visits` says where it can be after some number of steps, and
`Scheme.Ends` in which ways it can end from there.  What holds at the start and is kept by
every step then holds wherever the iteration ends.

## Key results

- `Scheme.Visits.invariant`: what every step keeps holds at every state on the way
- `Scheme.Visits.best_eq`: the best point is the newest point of some state on the way
- `outcome_iterate_of_visits`: an iteration goes through the states that it visits
- `ends_of_iterate`: an iteration that comes to an end does so in one of the listed ways
- `exists_ends_of_refine`: so does a refinement, and it reports where
- `exists_visits_of_refine_error`: a refinement that fails does so in a step, or at its start
- `exists_visits_of_mem_probes`: an iteration evaluates in the steps from the states it visits
-/

namespace ScalarRoots

variable {σ : Type}

namespace Scheme

/-- After `done` steps from `s₀` an iteration is at the last state, and `best` is the best
    point so far. -/
inductive Visits (m : Scheme σ) (s₀ : σ) : (done : Nat) → (best : Point Float) → σ → Prop where
  | start : Visits m s₀ 0 (m.newest s₀) s₀
  | moved {done : Nat} {best : Point Float} {s next : σ} (h : Visits m s₀ done best s)
      (hgo : m.criterion? s = none) (hstep : (m.step (done + 1) s).outcome = .ok (.moved next)) :
      Visits m s₀ (done + 1) (best.better (m.newest next)) next

/-- The ways in which an iteration with a budget of steps ends. -/
inductive Ends (m : Scheme σ) (s₀ : σ) (budget : Nat) : Finish → Prop where
  /-- A state meets a tolerance. -/
  | met {done : Nat} {best : Point Float} {s : σ} {c : Criterion} (h : m.Visits s₀ done best s)
      (hle : done ≤ budget) (hc : m.criterion? s = some c) :
      Ends m s₀ budget ⟨m.newest s, done, .toleranceReached, some c, m.stencil s⟩
  /-- The budget is spent. -/
  | exhausted {best : Point Float} {s : σ} (h : m.Visits s₀ budget best s)
      (hgo : m.criterion? s = none) :
      Ends m s₀ budget ⟨best, budget, .iterationLimit, none, m.stencil s⟩
  /-- A step leads to a point that is accepted. -/
  | accepted {done : Nat} {best : Point Float} {s next : σ} (h : m.Visits s₀ done best s)
      (hlt : done < budget) (hgo : m.criterion? s = none)
      (hstep : (m.step (done + 1) s).outcome = .ok (.accepted next)) :
      Ends m s₀ budget ⟨m.newest next, done + 1, .toleranceReached, some .step, m.stencil next⟩
  /-- There is no step to take. -/
  | stuck {done : Nat} {best : Point Float} {s : σ} (h : m.Visits s₀ done best s)
      (hlt : done < budget) (hgo : m.criterion? s = none)
      (hstep : (m.step (done + 1) s).outcome = .ok .stuck) :
      Ends m s₀ budget ⟨m.newest s, done, .singularSystem, none, m.stencil s⟩

/-! ## Invariants -/

/-- What holds at the start and is kept by every step holds at every state on the way. -/
theorem Visits.invariant {m : Scheme σ} {P : σ → Prop} {s₀ : σ} (h₀ : P s₀)
    (hstep : ∀ {number s next}, P s → m.criterion? s = none →
      (m.step number s).outcome = .ok (.moved next) → P next)
    {done : Nat} {best : Point Float} {s : σ} (h : m.Visits s₀ done best s) : P s := by
  induction h with
  | start => exact h₀
  | moved _ hgo hmoved ih => exact hstep ih hgo hmoved

/-- The best point is the newest point of some state on the way.  It is that of the last
    state, or that of a state at which no tolerance was met. -/
theorem Visits.best_eq {m : Scheme σ} {s₀ : σ} {done : Nat} {best : Point Float} {s : σ}
    (h : m.Visits s₀ done best s) :
    best = m.newest s ∨
      ∃ done' best' t, m.Visits s₀ done' best' t ∧ m.criterion? t = none ∧ best = m.newest t := by
  induction h with
  | start => exact .inl rfl
  | @moved done best s next hvis hgo hmoved ih =>
    rcases Point.better_eq_or best (m.newest next) with hold | hnew
    · -- the best point stays what it was before the step
      rw [hold]
      rcases ih with hs | hearlier
      · exact .inr ⟨done, best, s, hvis, hgo, hs⟩
      · exact .inr hearlier
    · exact .inl hnew

end Scheme

/-! ## Runs -/

/-- An iteration goes through the states that it visits: what it leads to from the start is
    what it leads to from there, with as many steps fewer. -/
theorem outcome_iterate_of_visits {m : Scheme σ} {s₀ : σ} {done : Nat} {best : Point Float}
    {s : σ} (h : m.Visits s₀ done best s) (start : Stencil) (left : Nat) :
    (iterate m start (done + left) 0 (m.newest s₀) s₀).outcome =
      (iterate m start left done best s).outcome := by
  -- Induction on the visit: each of its steps uses up one of those left.
  induction h generalizing left with
  | start => rw [Nat.zero_add]
  | @moved done best s next _ hgo hstep ih =>
    rw [Nat.add_right_comm, Nat.add_assoc, ih, iterate_succ hgo, Run.bind_of_ok hstep]

/-- An iteration whose steps run out at a state that meets no tolerance ends there, with the
    best point so far. -/
theorem outcome_iterate_of_visits_exhausted {m : Scheme σ} {s₀ : σ} {budget : Nat}
    {best : Point Float} {s : σ} (h : m.Visits s₀ budget best s) (hgo : m.criterion? s = none)
    (start : Stencil) :
    (iterate m start budget 0 (m.newest s₀) s₀).outcome =
      .ok ⟨best, budget, .iterationLimit, none, m.stencil s⟩ := by
  have hrun := outcome_iterate_of_visits h start 0
  rw [Nat.add_zero] at hrun
  rw [hrun, iterate_exhausted hgo]
  rfl

/-- An iteration that comes to an end, begun in the middle of its course, does so in one of
    the listed ways. -/
private theorem ends_of_iterate_from {m : Scheme σ} {start : Stencil} {s₀ : σ} {left done : Nat}
    {best : Point Float} {s : σ} {fin : Finish} (hvis : m.Visits s₀ done best s)
    (h : (iterate m start left done best s).outcome = .ok fin) :
    m.Ends s₀ (done + left) fin := by
  -- What carries over from step to step is that the state was visited.
  revert hvis h
  refine iterate_induction (motive := fun left done best s x =>
    m.Visits s₀ done best s → x.outcome = .ok fin → m.Ends s₀ (done + left) fin)
    ?met ?exhausted ?step left done best s
  case met =>
    intro left done best s c hc hvis h
    cases h
    exact .met hvis (Nat.le_add_right ..) hc
  case exhausted =>
    intro done best s hc hvis h
    cases h
    exact .exhausted hvis hc
  case step =>
    intro left done best s hc ih hvis h
    obtain ⟨advance, hstep, hnext⟩ := Run.outcome_bind_eq_ok.1 h
    have hlt : done < done + (left + 1) := by omega
    cases advance with
    | moved next =>
      have hend := ih _ next (.moved hvis hc hstep) hnext
      rwa [Nat.add_right_comm] at hend
    | accepted next =>
      cases hnext
      exact .accepted hvis hlt hc hstep
    | stuck =>
      cases hnext
      exact .stuck hvis hlt hc hstep

/-- An iteration that comes to an end does so in one of the listed ways. -/
theorem ends_of_iterate {m : Scheme σ} {start : Stencil} {budget : Nat} {s₀ : σ} {fin : Finish}
    (h : (iterate m start budget 0 (m.newest s₀) s₀).outcome = .ok fin) :
    m.Ends s₀ budget fin := by
  have hend := ends_of_iterate_from .start h
  rwa [Nat.zero_add] at hend

/-- A refinement that answers has a start and comes to an end, and it reports that end. -/
theorem exists_ends_of_refine {m : Scheme σ} {settings : Settings}
    {start : Run RefineError σ} {r : Report}
    (h : (refine m settings start).outcome = .ok r) :
    ∃ s₀ fin evaluations, start.outcome = .ok s₀ ∧
      m.Ends s₀ (m.algorithm.budget (settings.iterations.map (·.toNat))) fin ∧
      r = fin.report m.algorithm evaluations := by
  obtain ⟨fin, hrun, rfl⟩ := Run.outcome_counted_eq_ok.1 h
  obtain ⟨s₀, hstart, hiter⟩ := Run.outcome_bind_eq_ok.1 hrun
  exact ⟨s₀, fin, _, hstart, ends_of_iterate hiter, rfl⟩

/-- An iteration that fails, begun in the middle of its course, fails in a step from a visited
    state. -/
private theorem exists_visits_of_iterate_error_from {m : Scheme σ} {start : Stencil} {s₀ : σ}
    {left done : Nat} {best : Point Float} {s : σ} {e : RefineError}
    (hvis : m.Visits s₀ done best s)
    (h : (iterate m start left done best s).outcome = .error e) :
    ∃ done' best' t, m.Visits s₀ done' best' t ∧ done' < done + left ∧ m.criterion? t = none ∧
      (m.step (done' + 1) t).outcome = .error e := by
  -- As for the ways to end.
  revert hvis h
  refine iterate_induction (motive := fun left done best s x =>
    m.Visits s₀ done best s → x.outcome = .error e →
      ∃ done' best' t, m.Visits s₀ done' best' t ∧ done' < done + left ∧
        m.criterion? t = none ∧ (m.step (done' + 1) t).outcome = .error e)
    ?met ?exhausted ?step left done best s
  case met => exact fun _ _ _ _ _ _ _ h => nomatch h
  case exhausted => exact fun _ _ _ _ _ h => nomatch h
  case step =>
    intro left done best s hc ih hvis h
    rcases Run.outcome_bind_eq_error.1 h with hstep | ⟨advance, hstep, hrest⟩
    · exact ⟨done, best, s, hvis, by omega, hc, hstep⟩
    -- only a step that moves on leaves something that can fail
    cases advance with
    | moved next =>
      obtain ⟨done', best', t, ht, hlt, hgo, herror⟩ := ih _ next (.moved hvis hc hstep) hrest
      exact ⟨done', best', t, ht, by omega, hgo, herror⟩
    | accepted next => cases hrest
    | stuck => cases hrest

/-- A refinement fails at its start or in a step from a state that it visits. -/
theorem exists_visits_of_refine_error {m : Scheme σ} {settings : Settings}
    {start : Run RefineError σ} {e : RefineError}
    (h : (refine m settings start).outcome = .error e) :
    start.outcome = .error e ∨
      ∃ s₀ done best s, start.outcome = .ok s₀ ∧ m.Visits s₀ done best s ∧
        done < m.algorithm.budget (settings.iterations.map (·.toNat)) ∧
        m.criterion? s = none ∧ (m.step (done + 1) s).outcome = .error e := by
  rcases Run.outcome_bind_eq_error.1 (Run.outcome_counted_eq_error.1 h) with
    hstart | ⟨s₀, hstart, hiter⟩
  · exact .inl hstart
  · -- the start succeeded, so a step failed
    obtain ⟨done, best, s, hvis, hlt, hgo, herror⟩ :=
      exists_visits_of_iterate_error_from .start hiter
    exact .inr ⟨s₀, done, best, s, hstart, hvis, by omega, hgo, herror⟩

/-- A report that passes a test is there to be tested. -/
theorem exists_report_of_any {x : Run RefineError Report} {p : Report → Bool}
    (h : x.outcome.toOption.any p = true) : ∃ r, x.outcome = .ok r ∧ p r = true := by
  cases hx : x.outcome with
  | error e =>
    rw [hx] at h
    cases h
  | ok r =>
    rw [hx] at h
    exact ⟨r, rfl, h⟩

/-! ## Evaluations -/

/-- After a success the probes go on with those of what is bound. -/
theorem Run.probes_bind_of_ok {ε α β : Type} {x : Run ε α} {a : α} (h : x.outcome = .ok a)
    (f : α → Run ε β) : (x >>= f).probes = x.probes ++ (f a).probes := by
  rw [bind_of_ok h]
  exact Transcript.probes_append ..

/-- And so do the log records. -/
theorem Run.notes_bind_of_ok {ε α β : Type} {x : Run ε α} {a : α} (h : x.outcome = .ok a)
    (f : α → Run ε β) : (x >>= f).notes = x.notes ++ (f a).notes := by
  rw [bind_of_ok h]
  exact Transcript.notes_append ..

/-- What a bound run evaluates is evaluated by its first part, or by its second part after the
    first one has succeeded. -/
theorem Run.mem_probes_bind {ε α β : Type} {x : Run ε α} {f : α → Run ε β} {p : Probe} :
    p ∈ (x >>= f).probes ↔ p ∈ x.probes ∨ ∃ a, x.outcome = .ok a ∧ p ∈ (f a).probes := by
  unfold Run.probes
  rw [Run.transcript_bind, Transcript.probes_append, List.mem_append]
  cases x.outcome with
  | ok a => simp
  | error e => simp

/-- An iteration begun in the middle of its course evaluates in steps from visited states. -/
private theorem exists_visits_of_mem_probes_from {m : Scheme σ} {start : Stencil} {s₀ : σ}
    {left done : Nat} {best : Point Float} {s : σ} {p : Probe} (hvis : m.Visits s₀ done best s)
    (h : p ∈ (iterate m start left done best s).probes) :
    ∃ done' best' t, m.Visits s₀ done' best' t ∧ done' < done + left ∧ m.criterion? t = none ∧
      p ∈ (m.step (done' + 1) t).probes := by
  -- As for the ways to end.
  revert hvis h
  refine iterate_induction (motive := fun left done best s x =>
    m.Visits s₀ done best s → p ∈ x.probes →
      ∃ done' best' t, m.Visits s₀ done' best' t ∧ done' < done + left ∧
        m.criterion? t = none ∧ p ∈ (m.step (done' + 1) t).probes)
    ?met ?exhausted ?step left done best s
  case met => exact fun _ _ _ _ _ _ _ h => absurd h List.not_mem_nil
  case exhausted => exact fun _ _ _ _ _ h => absurd h List.not_mem_nil
  case step =>
    intro left done best s hc ih hvis h
    rcases Run.mem_probes_bind.1 h with hp | ⟨move, hmove, hrest⟩
    · exact ⟨done, best, s, hvis, by omega, hc, hp⟩
    -- only a step that moves on leaves something to evaluate
    cases move with
    | moved next =>
      obtain ⟨done', best', t, ht, hlt, hgo, hp⟩ := ih _ next (.moved hvis hc hmove) hrest
      exact ⟨done', best', t, ht, by omega, hgo, hp⟩
    | accepted next => exact absurd hrest List.not_mem_nil
    | stuck => exact absurd hrest List.not_mem_nil

/-- An iteration evaluates only in the steps from the states that it visits. -/
theorem exists_visits_of_mem_probes {m : Scheme σ} {start : Stencil} {budget : Nat} {s₀ : σ}
    {p : Probe} (h : p ∈ (iterate m start budget 0 (m.newest s₀) s₀).probes) :
    ∃ done best s, m.Visits s₀ done best s ∧ done < budget ∧ m.criterion? s = none ∧
      p ∈ (m.step (done + 1) s).probes := by
  obtain ⟨done, best, s, hvis, hlt, hgo, hp⟩ := exists_visits_of_mem_probes_from .start h
  exact ⟨done, best, s, hvis, by omega, hgo, hp⟩

/-- A refinement evaluates at its start and in the steps from there. -/
theorem mem_probes_refine {m : Scheme σ} {settings : Settings} {start : Run RefineError σ}
    {p : Probe} (h : p ∈ (refine m settings start).probes) :
    p ∈ start.probes ∨
      ∃ s₀ done best s, start.outcome = .ok s₀ ∧ m.Visits s₀ done best s ∧
        done < m.algorithm.budget (settings.iterations.map (·.toNat)) ∧
        m.criterion? s = none ∧ p ∈ (m.step (done + 1) s).probes := by
  unfold refine Run.probes at h
  rw [Run.transcript_counted] at h
  rcases Run.mem_probes_bind.1 h with hp | ⟨s₀, hstart, hrest⟩
  · exact .inl hp
  · obtain ⟨done, best, s, hvis, hlt, hgo, hp⟩ := exists_visits_of_mem_probes hrest
    exact .inr ⟨s₀, done, best, s, hstart, hvis, hlt, hgo, hp⟩

end ScalarRoots
