import ScalarRoots.Proofs.Binary64.Arithmetic
import ScalarRoots.Proofs.Refinement.Accounting
import ScalarRoots.Proofs.Refinement.Budget
import ScalarRoots.Proofs.Refinement.Running

/-!
# Going on from a stencil

The methods from several points remember nothing but their points, and the stencil of a report
holds all of them.  So a refinement that ran out of iterations can be taken up again: started
from the stencil, the method goes on as the refinement would have with more iterations.  Only
the best point has to be put together from the two parts.

## Key results

- `Point.better_assoc`: the best of three points, in two ways
- `Scheme.IsFaithful.outcome_iterate_add`: an iteration in two parts
- `Scheme.IsFaithful.outcome_refine_add`: a refinement in two parts
- `TwoPoint.IsFinite.start_eq` / `ThreePoint.IsFinite.start_eq`: a state is a start again
- `Refinement.within_add`: a refinement that goes on from its stencil
-/

namespace ScalarRoots

open Binary64

variable {σ : Type}

/-! ## The best point of two parts -/

namespace Point

/-- The best of three points is found from either side. -/
theorem better_assoc (p : Point Float) {q : Point Float} (r : Point Float)
    (hq : q.residual.isNaN = false) : (p.better q).better r = p.better (q.better r) := by
  by_cases hqp : q.residual < p.residual
  · rw [better_of_lt hqp]
    by_cases hrq : r.residual < q.residual
    · rw [better_of_lt hrq, better_of_lt (Binary64.lt_of_lt_of_le hrq (le_of_lt hqp))]
    · rw [better_of_not_lt hrq, better_of_lt hqp]
  · rw [better_of_not_lt hqp]
    by_cases hrq : r.residual < q.residual
    · rw [better_of_lt hrq]
    · rw [better_of_not_lt hrq, better_of_not_lt hqp]
      refine better_of_not_lt fun hrp => hqp ?_
      -- otherwise the three would go round in a circle
      have hr : r.residual.isNaN = false := (lt_iff.1 hrp).1.1
      exact Binary64.lt_of_le_of_lt (le_of_not_lt hr hq hrq) hrp

/-- A point that was compared with need not be compared with again. -/
theorem better_better (p q : Point Float) : (p.better q).better q = p.better q := by
  by_cases hqp : q.residual < p.residual
  · rw [better_of_lt hqp]
    exact better_of_not_lt (Binary64.lt_irrefl _)
  · rw [better_of_not_lt hqp, better_of_not_lt hqp]

end Point

/-- The best point is no worse than the newest. -/
theorem Scheme.Visits.better_newest {m : Scheme σ} {s₀ : σ} {done : Nat} {best : Point Float}
    {s : σ} (h : m.Visits s₀ done best s) : best.better (m.newest s) = best := by
  cases h with
  -- a point is not better than itself
  | start => exact Point.better_of_not_lt (Binary64.lt_irrefl _)
  | moved => exact Point.better_better _ _

/-! ## Iterations in two parts -/

/-- Runs with the same first part have the same outcome when what follows has. -/
theorem Run.outcome_bind_congr {ε α β : Type} {x : Run ε α} {g h : α → Run ε β}
    (hgh : ∀ a, (g a).outcome = (h a).outcome) : (x >>= g).outcome = (x >>= h).outcome := by
  rw [outcome_bind, outcome_bind]
  exact congrArg _ (funext hgh)

/-- Behind the same check, equal outcomes stay equal. -/
theorem Run.outcome_check_congr {ε α : Type} {b : Bool} {e : ε} {x y : Run ε α}
    (hxy : x.outcome = y.outcome) :
    (if (!b) = true then (throw e : Run ε PUnit) >>= fun _ => x else x).outcome =
      (if (!b) = true then (throw e : Run ε PUnit) >>= fun _ => y else y).outcome := by
  cases b with
  | true => exact hxy
  | false => rfl

/-- What a step leads to does not depend on its number, which is only traced. -/
def Scheme.IgnoresNumber (m : Scheme σ) : Prop :=
  ∀ i j s, (m.step i s).outcome = (m.step j s).outcome

/-- Where an iteration ends that has made `done` steps before, with `earlier` the best point of
    them. -/
def Finish.after (done : Nat) (earlier : Point Float) (fin : Finish) : Finish where
  root := if fin.reason = .iterationLimit then earlier.better fin.root else fin.root
  iterations := done + fin.iterations
  reason := fin.reason
  met := fin.met
  stencil := fin.stencil

/-- An iteration with some steps behind it ends where it would have ended without them. -/
theorem Scheme.IsFaithful.outcome_iterate_after {m : Scheme σ} {f : Float → Float}
    {t : Tolerance} (hm : m.IsFaithful f t) (hnumber : m.IgnoresNumber) (earlier : Point Float)
    (k : Nat) {start start' : Stencil} {left done : Nat} {best : Point Float} {s : σ}
    (hbest : best.residual.isNaN = false) :
    (iterate m start left (k + done) (earlier.better best) s).outcome =
      (iterate m start' left done best s).outcome.map (Finish.after k earlier) := by
  -- Both make the same steps; what is carried along is that the two best points match.
  induction left generalizing done best s with
  | zero =>
    cases hc : m.criterion? s with
    | some c =>
      rw [iterate_of_met hc, iterate_of_met hc]
      rfl
    | none =>
      rw [iterate_exhausted hc, iterate_exhausted hc]
      rfl
  | succ left ih =>
    cases hc : m.criterion? s with
    | some c =>
      rw [iterate_of_met hc, iterate_of_met hc]
      rfl
    | none =>
      -- the two steps differ in their numbers only
      rw [iterate_succ hc, iterate_succ hc, Run.outcome_bind, Run.outcome_bind,
        hnumber (k + done + 1) (done + 1)]
      cases hstep : (m.step (done + 1) s).outcome with
      | error e => rfl
      | ok advance =>
        cases advance with
        | moved next =>
          have hnext : (best.better (m.newest next)).residual.isNaN = false := by
            rcases Point.better_eq_or best (m.newest next) with h | h <;> rw [h]
            · exact hbest
            · exact (hm.onGraph hstep rfl).isNaN_residual
          show (iterate m start left (k + (done + 1)) _ next).outcome = _
          rw [Point.better_assoc _ _ hbest, ih hnext]
          rfl
        | accepted next => rfl
        | stuck => rfl

/-- An iteration can be begun anew at any state that it visits. -/
theorem Scheme.IsFaithful.outcome_iterate_add {m : Scheme σ} {f : Float → Float}
    {t : Tolerance} (hm : m.IsFaithful f t) (hnumber : m.IgnoresNumber) {s₀ : σ}
    (h₀ : (m.newest s₀).OnGraph f) {done : Nat} {best : Point Float} {s : σ}
    (h : m.Visits s₀ done best s) (start start' : Stencil) (left : Nat) :
    (iterate m start (done + left) 0 (m.newest s₀) s₀).outcome =
      (iterate m start' left 0 (m.newest s) s).outcome.map (Finish.after done best) := by
  -- both go on from the state, with the best point of the way behind it or without
  rw [outcome_iterate_of_visits h,
    ← hm.outcome_iterate_after hnumber best done (hm.newest_onGraph h₀ h).isNaN_residual,
    h.better_newest, Nat.add_zero]

/-! ## Refinements in two parts -/

/-- The report on a refinement in two parts, of which the first ran out of iterations.  The
    iterations add up, and so do the evaluations, except that the second part begins with
    points that are known already.  Of two best points the better one is offered. -/
def Report.followedBy (first second : Report) : Report where
  algorithm := second.algorithm
  root := if second.reason = .iterationLimit then first.root.better second.root else second.root
  iterations := first.iterations + second.iterations
  evaluations := first.iterations + second.evaluations
  reason := second.reason
  met := second.met
  stencil := second.stencil

/-- A refinement whose steps evaluate once can be begun anew at the state at which it runs out of
    iterations, from a start that costs the same. -/
theorem Scheme.IsFaithful.outcome_refine_add {m : Scheme σ} {f : Float → Float} {t : Tolerance}
    (hm : m.IsFaithful f t) (hnumber : m.IgnoresNumber) {opening : List Quantity} {q : Quantity}
    (hcost : m.IsAccounted [q]) {start start' : Run RefineError σ}
    (hstart : start.IsAccounted m.algorithm opening [])
    (hstart' : start'.IsAccounted m.algorithm opening []) {first : Count} (second : Count)
    {s₀ s : σ} {best : Point Float} (hs₀ : start.outcome = .ok s₀) (hs : start'.outcome = .ok s)
    (h₀ : (m.newest s₀).OnGraph f) (h : m.Visits s₀ first.toNat best s) (evaluations : Nat) :
    (refine m ⟨t, some ⟨first.toNat + second.toNat, Nat.add_pos_left first.pos _⟩⟩
        start).outcome =
      (refine m ⟨t, some second⟩ start').outcome.map
        ((⟨best, first.toNat, .iterationLimit, none, m.stencil s⟩ : Finish).report m.algorithm
          evaluations).followedBy := by
  rw [hcost.outcome_refine hstart _ hs₀, hcost.outcome_refine hstart' _ hs]
  simp only [Option.map_some, Algorithm.budget_some]
  rw [hm.outcome_iterate_add hnumber h₀ h _ (m.stencil s)]
  cases (iterate m (m.stencil s) second.toNat 0 (m.newest s) s).outcome with
  | error e => rfl
  | ok fin =>
    -- one evaluation in each of the first iterations
    have hcount : opening.length + (first.toNat + fin.iterations) * [q].length =
        first.toNat + (opening.length + fin.iterations * [q].length) := by
      rw [List.length_singleton]
      omega
    show Except.ok ((fin.after first.toNat best).report _ _) = Except.ok (Report.followedBy _ _)
    rw [Finish.after, hcount]
    rfl

/-! ## Starting from a state -/

/-- The refinement from several points that has the stencil for its starts. -/
def Stencil.refinement? : Stencil → Option Refinement
  | bracket a b => some (.falsePosition a b)
  | single _ => none
  | pair x₀ x₁ => some (.secant x₀ x₁)
  | triple x₀ x₁ x₂ => some (.muller x₀ x₁ x₂)

/-- An iteration from two points that goes on has two distinct locations, so it can start from
    them. -/
theorem TwoPoint.IsFinite.start_eq {f : Float → Float} {t : Tolerance} {s : TwoPoint}
    (h : s.IsFinite f) (hgo : s.criterion? t = none) :
    (start f s.older.x s.newer.x).outcome = .ok s := by
  -- equal locations would have ended the iteration by their distance
  have hdistinct : (s.older.x == s.newer.x) = false := by
    refine Bool.eq_false_iff.2 fun heq => (criterion?_eq_none.1 hgo).2 ?_
    exact abs_sub_lt_of_beq h.older.location_finite h.newer.location_finite heq t.pos
  refine start_eq_ok.2
    ⟨⟨h.older.location_finite, h.newer.location_finite, hdistinct⟩, ?_, h.older.1, h.newer.1⟩
  rw [← h.older.value_eq, ← h.newer.value_eq]

/-- Three distinct points of a state are as good as a start. -/
theorem ThreePoint.IsFinite.start_eq {f : Float → Float} {s : ThreePoint} (h : s.IsFinite f) :
    (Muller.start f s.oldest.x s.middle.x s.newest.x).outcome = .ok s := by
  refine Muller.start_eq_ok.2
    ⟨⟨h.oldest.location_finite, h.middle.location_finite, h.newest.location_finite⟩, ?_,
      h.oldest.1, h.middle.1, h.newest.1⟩
  rw [← h.oldest.value_eq, ← h.middle.value_eq, ← h.newest.value_eq]

namespace Refinement

/-- In all six methods the number of a step is only traced. -/
theorem ignoresNumber (m : Refinement) (f : Float → Float) (t : Tolerance) :
    (m.scheme f t).IgnoresNumber := by
  intro i j s
  cases m with
  | newton df x₀ =>
    exact Run.outcome_bind_congr fun _ => Run.outcome_bind_congr fun _ => rfl
  | secant x₀ x₁ => exact Run.outcome_bind_congr fun _ => rfl
  | falsePosition x₀ x₁ => exact Run.outcome_bind_congr fun _ => rfl
  | muller x₀ x₁ x₂ =>
    -- with a parabola and without one
    show (Muller.step f i s).outcome = (Muller.step f j s).outcome
    unfold Muller.step
    split
    · rfl
    · refine Run.outcome_bind_congr fun _ => Run.outcome_check_congr ?_
      exact Run.outcome_bind_congr fun _ => rfl
  | chebyshev df d2f x₀ =>
    refine Run.outcome_bind_congr fun _ => Run.outcome_bind_congr fun _ => ?_
    refine Run.outcome_check_congr (Run.outcome_bind_congr fun _ => ?_)
    split <;> rfl
  | multipoint df rule x₀ =>
    exact Run.outcome_bind_congr fun _ => Run.outcome_bind_congr fun _ => rfl

/-- From any start that leads to the state at which a refinement ran out of iterations, the same
    method goes on as the refinement would have. -/
theorem within_add_of_start {m : Refinement} {f : Float → Float} {t : Tolerance} {q : Quantity}
    (hcost : m.stepCalls = [q]) {first : Count} (second : Count) {s₀ s : m.State}
    {best : Point Float} (hs₀ : (m.start f).outcome = .ok s₀)
    (hvis : (m.scheme f t).Visits s₀ first.toNat best s) (evaluations : Nat)
    {start' : Run RefineError m.State} (hstart' : start'.IsAccounted m.algorithm m.openingCalls [])
    (hs : start'.outcome = .ok s) :
    (m.within f t ⟨first.toNat + second.toNat, Nat.add_pos_left first.pos _⟩).outcome =
      (refine (m.scheme f t) ⟨t, some second⟩ start').outcome.map
        ((⟨best, first.toNat, .iterationLimit, none, (m.scheme f t).stencil s⟩ : Finish).report m.algorithm
          evaluations).followedBy := by
  have hstep := m.isAccounted_scheme f t
  have hstart := m.isAccounted_start f
  rw [hcost] at hstep
  rw [← m.algorithm_scheme f t] at hstart hstart' ⊢
  rw [within, run_eq]
  exact (m.isFaithful f t).outcome_refine_add (m.ignoresNumber f t) hstep hstart hstart' second hs₀
    hs (newest_onGraph_of_start hs₀) hvis evaluations

/-- The methods from several points can start from the stencil of any state at which they go on,
    and this brings them to that state. -/
theorem exists_start_of_visits {m : Refinement} {f : Float → Float} {t : Tolerance}
    (hm : m.algorithm = .secant ∨ m.algorithm = .falsePosition ∨ m.algorithm = .muller)
    {s₀ s : m.State} {done : Nat} {best : Point Float} (hs₀ : (m.start f).outcome = .ok s₀)
    (hvis : (m.scheme f t).Visits s₀ done best s) (hgo : (m.scheme f t).criterion? s = none) :
    ∃ m', ((m.scheme f t).stencil s).refinement? = some m' ∧ m'.algorithm = m.algorithm ∧
      (m'.start f).outcome.isOk = true ∧
      ∃ start' : Run RefineError m.State, start'.outcome = .ok s ∧
        start'.IsAccounted m.algorithm m.openingCalls [] ∧
        ∀ iterations, m'.within f t iterations =
          refine (m.scheme f t) ⟨t, some iterations⟩ start' := by
  -- For each of the three, its own points are the stencil.
  cases m with
  | secant x₀ x₁ =>
    have hs := (Secant.isFinite_of_visits (TwoPoint.isFinite_of_start hs₀) hvis).start_eq hgo
    exact ⟨secant _ _, rfl, rfl, congrArg Except.isOk hs, _, hs, TwoPoint.isAccounted_start f _ _,
      fun _ => rfl⟩
  | falsePosition x₀ x₁ =>
    have hs :=
      (FalsePosition.isFinite_of_visits (TwoPoint.isFinite_of_start hs₀) hvis).start_eq hgo
    exact ⟨falsePosition _ _, rfl, rfl, congrArg Except.isOk hs, _, hs,
      TwoPoint.isAccounted_start f _ _, fun _ => rfl⟩
  | muller x₀ x₁ x₂ =>
    have hs := (Muller.isFinite_of_visits (Muller.isFinite_of_start hs₀) hvis).start_eq
    exact ⟨muller _ _ _, rfl, rfl, congrArg Except.isOk hs, _, hs,
      Muller.isAccounted_start f _ _ _, fun _ => rfl⟩
  | _ => rcases hm with hm | hm | hm <;> cases hm

/-- Their steps evaluate once. -/
theorem stepCalls_eq_singleton {m : Refinement}
    (hm : m.algorithm = .secant ∨ m.algorithm = .falsePosition ∨ m.algorithm = .muller) :
    m.stepCalls = [.value] := by
  cases m with
  | secant x₀ x₁ => rfl
  | falsePosition x₀ x₁ => rfl
  | muller x₀ x₁ x₂ => rfl
  | _ => rcases hm with hm | hm | hm <;> cases hm

/-- The methods from several points go on from their stencil.  A refinement that ran out of its
    iterations has used them all, and its stencil is a start of the same method.  From there a
    second refinement makes up, with the first, what one refinement with the iterations of both
    would have been: it fails with the same error, or it ends in the same way and with the same
    stencil, with the iterations of the first refinement and as many evaluations to be added, and
    with the better of the two roots if the iterations ran out again. -/
theorem within_add (m : Refinement) (f : Float → Float) (t : Tolerance) (first second : Count)
    (r : Report)
    (hm : m.algorithm = .secant ∨ m.algorithm = .falsePosition ∨ m.algorithm = .muller)
    (h : RunsOut (m.within f t first) r) :
    r.iterations = first.toNat ∧
      ∃ m', r.stencil.refinement? = some m' ∧ m'.algorithm = m.algorithm ∧
        (m'.start f).outcome.isOk = true ∧
        (m.within f t ⟨first.toNat + second.toNat, Nat.add_pos_left first.pos _⟩).outcome =
          (m'.within f t second).outcome.map r.followedBy := by
  unfold within at h
  rw [run_eq] at h
  obtain ⟨s₀, best, s, evaluations, hs₀, hvis, hgo, rfl⟩ := h.exists_visits
  -- the second refinement begins at the state at which the first one ran out
  obtain ⟨m', hm', halgorithm, hok, start', hs, hstart', hwithin⟩ :=
    exists_start_of_visits hm hs₀ hvis hgo
  refine ⟨rfl, m', hm', halgorithm, hok, ?_⟩
  rw [hwithin, algorithm_scheme]
  exact within_add_of_start (stepCalls_eq_singleton hm) second hs₀ hvis evaluations hstart' hs

/-- Two iterations of the secant method towards the root of two, and then one more from their
    stencil, are three iterations. -/
theorem within_add_root_two :
    ∃ r, RunsOut ((secant 1 2).within (fun x => x * x - 2) .default ⟨2, Nat.two_pos⟩) r ∧
      r.iterations = 2 ∧
      ∃ m', r.stencil.refinement? = some m' ∧ m'.algorithm = .secant ∧
        ((secant 1 2).within (fun x => x * x - 2) .default ⟨3, Nat.succ_pos 2⟩).outcome =
          (m'.within (fun x => x * x - 2) .default ⟨1, Nat.one_pos⟩).outcome.map r.followedBy := by
  obtain ⟨r, hout⟩ := exists_runsOut
    (x := (secant 1 2).within (fun x => x * x - 2) .default ⟨2, Nat.two_pos⟩) (by decide +kernel)
  obtain ⟨hiterations, m', hm', halgorithm, -, hadd⟩ :=
    within_add (secant 1 2) _ .default ⟨2, Nat.two_pos⟩ ⟨1, Nat.one_pos⟩ r (.inl rfl) hout
  exact ⟨r, hout, hiterations, m', hm', halgorithm, hadd⟩

end Refinement

end ScalarRoots
