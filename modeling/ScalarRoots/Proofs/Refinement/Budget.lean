import ScalarRoots.Proofs.Refinement.Honesty

/-!
# A budget only cuts a refinement short

The number of iterations that a refinement is allowed has no influence on the way it goes,
only on how far.  A refinement that ends by itself ends in the same way under every greater
budget.  One that runs out of iterations would have run out of fewer as well, and what it
offers then is no better.

## Key results

- `iterate_add`: steps to spare change nothing
- `Scheme.IsFaithful.visits_earlier`: on the way to a state lie states after every smaller
  number of steps, and the best point until there is no better
- `Refinement.within_of_le`: what a greater budget changes, and what it does not
-/

namespace ScalarRoots

open Binary64

variable {σ : Type}

/-! ## Steps to spare -/

/-- An iteration that does not use up its steps goes the same way with more of them. -/
theorem iterate_add {m : Scheme σ} {start : Stencil} {left done : Nat} {best : Point Float}
    {s : σ} (spare : Nat)
    (h : ∀ fin, (iterate m start left done best s).outcome = .ok fin → fin.reason ≠ .iterationLimit) :
    iterate m start (left + spare) done best s = iterate m start left done best s := by
  -- Induction on the steps left; an iteration that makes one more step is the same until then.
  induction left generalizing done best s with
  | zero =>
    cases hc : m.criterion? s with
    | some c => rw [iterate_of_met hc, iterate_of_met hc]
    | none =>
      -- it would have run out of steps here
      rw [iterate_exhausted hc] at h
      exact absurd rfl (h _ rfl)
  | succ left ih =>
    cases hc : m.criterion? s with
    | some c => rw [iterate_of_met hc, iterate_of_met hc]
    | none =>
      rw [iterate_succ hc] at h
      rw [Nat.add_right_comm, iterate_succ hc, iterate_succ hc]
      cases hstep : (m.step (done + 1) s).outcome with
      | error e => rw [Run.bind_of_error hstep, Run.bind_of_error hstep]
      | ok advance =>
        rw [Run.bind_of_ok hstep] at h
        rw [Run.bind_of_ok hstep, Run.bind_of_ok hstep]
        cases advance with
        | moved next =>
          simp only
          rw [ih h]
        | accepted next => rfl
        | stuck => rfl

/-! ## Fewer steps -/

/-- The better of two points is no worse than the first. -/
theorem Point.residual_better_le {p : Point Float} (q : Point Float)
    (hp : p.residual.isNaN = false) : (p.better q).residual ≤ p.residual := by
  by_cases hlt : q.residual < p.residual
  · rw [better_of_lt hlt]
    exact le_of_lt hlt
  · rw [better_of_not_lt hlt]
    exact le_refl hp

/-- On the way to a state that meets no tolerance lie such states after every smaller number
    of steps, and the best point until there is no better. -/
theorem Scheme.IsFaithful.visits_earlier {m : Scheme σ} {f : Float → Float} {t : Tolerance}
    (hm : m.IsFaithful f t) {s₀ : σ} (h₀ : (m.newest s₀).OnGraph f) {done k : Nat}
    {best : Point Float} {s : σ} (h : m.Visits s₀ done best s) (hgo : m.criterion? s = none)
    (hk : k ≤ done) :
    ∃ best' s', m.Visits s₀ k best' s' ∧ m.criterion? s' = none ∧
      best.residual ≤ best'.residual := by
  have hnaN := (hm.best h₀ h hgo).1.isNaN_residual
  -- Induction on the visit: the state asked for is the last one or was visited before.
  induction h with
  | start =>
    obtain rfl : k = 0 := Nat.le_zero.1 hk
    exact ⟨_, _, .start, hgo, le_refl hnaN⟩
  | @moved done best s next hvis hgo' hstep ih =>
    rcases Nat.lt_or_eq_of_le hk with hlt | rfl
    · have hbest := (hm.best h₀ hvis hgo').1.isNaN_residual
      obtain ⟨best', s', hvis', hgo'', hle⟩ := ih hgo' (Nat.le_of_lt_succ hlt) hbest
      exact ⟨best', s', hvis', hgo'', le_trans (Point.residual_better_le _ hbest) hle⟩
    · exact ⟨_, _, .moved hvis hgo' hstep, hgo, le_refl hnaN⟩

/-! ## Refinements -/

/-- The run comes to an end because its iterations run out, and this is its report. -/
def RunsOut (x : Run RefineError Report) (r : Report) : Prop :=
  x.outcome = .ok r ∧ r.reason = .iterationLimit

/-- A report on spent iterations that passes a test is there to be tested. -/
theorem exists_runsOut_of_any {x : Run RefineError Report} {p : Report → Bool}
    (h : x.outcome.toOption.any (fun r => r.reason = .iterationLimit && p r) = true) :
    ∃ r, RunsOut x r ∧ p r = true := by
  obtain ⟨r, hr, htest⟩ := exists_report_of_any h
  obtain ⟨hreason, hp⟩ := (Bool.and_eq_true_iff ..).1 htest
  exact ⟨r, ⟨hr, of_decide_eq_true hreason⟩, hp⟩

/-- A run that can be evaluated shows itself whether it runs out. -/
theorem exists_runsOut {x : Run RefineError Report}
    (h : x.outcome.toOption.any (·.reason = .iterationLimit) = true) :
    ∃ r, RunsOut x r := by
  obtain ⟨r, hr, hreason⟩ := exists_report_of_any h
  exact ⟨r, hr, of_decide_eq_true hreason⟩

/-- A refinement reports where its iteration ends. -/
theorem exists_report_of_iterate {m : Scheme σ} (settings : Settings)
    {start : Run RefineError σ} {s₀ : σ} {fin : Finish} (hstart : start.outcome = .ok s₀)
    (h : (iterate m (m.stencil s₀) (m.algorithm.budget (settings.iterations.map (·.toNat))) 0
      (m.newest s₀) s₀).outcome = .ok fin) :
    ∃ evaluations,
      (refine m settings start).outcome = .ok (fin.report m.algorithm evaluations) := by
  refine ⟨_, Run.outcome_counted_eq_ok.2 ⟨fin, ?_, rfl⟩⟩
  exact Run.outcome_bind_eq_ok.2 ⟨s₀, hstart, h⟩

/-- A refinement that runs out of iterations reports the best point of its way and the stencil of
    the state that it came to. -/
theorem RunsOut.exists_visits {m : Scheme σ} {settings : Settings} {start : Run RefineError σ}
    {r : Report} (h : RunsOut (refine m settings start) r) :
    let budget := m.algorithm.budget (settings.iterations.map (·.toNat))
    ∃ s₀ best s evaluations, start.outcome = .ok s₀ ∧ m.Visits s₀ budget best s ∧
      m.criterion? s = none ∧
      r = (⟨best, budget, .iterationLimit, none, m.stencil s⟩ : Finish).report m.algorithm
        evaluations := by
  obtain ⟨hrun, hreason⟩ := h
  obtain ⟨s₀, fin, evaluations, hs₀, hends, rfl⟩ := exists_ends_of_refine hrun
  -- only the spent budget is reported in this way
  cases hends with
  | exhausted hvis hgo => exact ⟨s₀, _, _, evaluations, hs₀, hvis, hgo, rfl⟩
  | _ => exact nomatch hreason

/-- A refinement that does not run out of iterations goes the same way with more of them. -/
theorem refine_of_le {m : Scheme σ} {t : Tolerance} {start : Run RefineError σ}
    {small large : Count} (hle : small.toNat ≤ large.toNat)
    (h : ∀ r, ¬ RunsOut (refine m ⟨t, some small⟩ start) r) :
    refine m ⟨t, some large⟩ start = refine m ⟨t, some small⟩ start := by
  cases hstart : start.outcome with
  | error e =>
    simp only [refine]
    rw [Run.bind_of_error hstart, Run.bind_of_error hstart]
  | ok s₀ =>
    obtain ⟨spare, hlarge⟩ := Nat.exists_eq_add_of_le hle
    -- the iteration does not run out of steps, or else the refinement would report that
    have hends : ∀ fin,
        (iterate m (m.stencil s₀) small.toNat 0 (m.newest s₀) s₀).outcome = .ok fin →
          fin.reason ≠ .iterationLimit := by
      intro fin hfin hexhausted
      obtain ⟨_, hreport⟩ := exists_report_of_iterate ⟨t, some small⟩ hstart hfin
      exact h _ ⟨hreport, hexhausted⟩
    simp only [refine, Option.map_some, Algorithm.budget_some]
    rw [Run.bind_of_ok hstart, Run.bind_of_ok hstart, hlarge, iterate_add spare hends]

/-- A refinement that runs out of iterations would have run out of fewer, with a report that
    is no better. -/
theorem Scheme.IsFaithful.runsOut_of_le {m : Scheme σ} {f : Float → Float} {t : Tolerance}
    (hm : m.IsFaithful f t) {start : Run RefineError σ}
    (hstart : ∀ s₀, start.outcome = .ok s₀ → (m.newest s₀).OnGraph f) {small large : Count}
    (hle : small.toNat ≤ large.toNat) {r' : Report}
    (h : RunsOut (refine m ⟨t, some large⟩ start) r') :
    ∃ r, RunsOut (refine m ⟨t, some small⟩ start) r ∧ r.iterations = small.toNat ∧
      r'.root.residual ≤ r.root.residual := by
  obtain ⟨s₀, best, s, _, hs₀, hvis, hgo, rfl⟩ := h.exists_visits
  obtain ⟨best', s', hvis', hgo', hres⟩ := hm.visits_earlier (hstart s₀ hs₀) hvis hgo hle
  -- with the smaller budget the iteration has no steps left at the earlier state
  have hfin := outcome_iterate_of_visits_exhausted hvis' hgo' (m.stencil s₀)
  obtain ⟨_, hreport⟩ := exists_report_of_iterate ⟨t, some small⟩ hs₀ hfin
  exact ⟨_, ⟨hreport, rfl⟩, rfl, hres⟩

namespace Refinement

/-- The refinement with a given number of iterations allowed. -/
def within (m : Refinement) (f : Float → Float) (t : Tolerance) (iterations : Count) :
    Run RefineError Report :=
  m.run f ⟨t, some iterations⟩

/-- The budget of iterations only cuts a refinement short, for all six methods.  A refinement
    that does not run out of iterations, because it converges, is stuck or fails, is the same
    under every greater budget, to the last field of its report or error.  And one that runs
    out of iterations runs out of every smaller number of them, having used them all, with a
    residual that is no smaller. -/
theorem within_of_le (m : Refinement) (f : Float → Float) (t : Tolerance) (small large : Count)
    (hle : small.toNat ≤ large.toNat) :
    ((∀ r, ¬ RunsOut (m.within f t small) r) → m.within f t large = m.within f t small) ∧
      ∀ r', RunsOut (m.within f t large) r' →
        ∃ r, RunsOut (m.within f t small) r ∧ r.iterations = small.toNat ∧
          r'.root.residual ≤ r.root.residual := by
  simp only [within, run_eq]
  exact ⟨refine_of_le hle, fun r' h =>
    (m.isFaithful f t).runsOut_of_le (fun _ => newest_onGraph_of_start) hle h⟩

/-- On the root of two, Newton's method runs out of one or two iterations and then needs no
    more than three. -/
theorem within_of_le_root_two :
    (newton (fun x => 2 * x) 1).within (fun x => x * x - 2) .default ⟨50, by decide⟩ =
        (newton (fun x => 2 * x) 1).within (fun x => x * x - 2) .default ⟨3, by decide⟩ ∧
      ∃ r r',
        RunsOut ((newton (fun x => 2 * x) 1).within (fun x => x * x - 2) .default
          ⟨1, by decide⟩) r ∧
        RunsOut ((newton (fun x => 2 * x) 1).within (fun x => x * x - 2) .default
          ⟨2, by decide⟩) r' ∧
        r.iterations = 1 ∧ r'.root.residual ≤ r.root.residual := by
  constructor
  · refine (within_of_le _ _ _ ⟨3, by decide⟩ ⟨50, by decide⟩ (by decide)).1 fun r hr => ?_
    have hreason : ((newton (fun x => 2 * x) 1).within (fun x => x * x - 2) .default
        ⟨3, by decide⟩).outcome.toOption.map (·.reason) = some .toleranceReached := by
      decide +kernel
    rw [hr.1] at hreason
    exact absurd (hr.2.symm.trans (Option.some.inj hreason)) (by decide)
  · obtain ⟨r', hr'⟩ := Run.exists_outcome_eq_ok
      (show ((newton (fun x => 2 * x) 1).within (fun x => x * x - 2) .default
        ⟨2, by decide⟩).outcome.isOk = true by decide +kernel)
    have hreason : ((newton (fun x => 2 * x) 1).within (fun x => x * x - 2) .default
        ⟨2, by decide⟩).outcome.toOption.map (·.reason) = some .iterationLimit := by
      decide +kernel
    rw [hr'] at hreason
    have hout := And.intro hr' (Option.some.inj hreason)
    obtain ⟨r, hr, hcount, hle⟩ :=
      (within_of_le _ _ _ ⟨1, by decide⟩ ⟨2, by decide⟩ (by decide)).2 r' hout
    exact ⟨r, r', hr, hout, hcount, hle⟩

end Refinement

end ScalarRoots
