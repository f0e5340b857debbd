import ScalarRoots.Proofs.Binary64.Order
import ScalarRoots.Proofs.Refinement.Course
import ScalarRoots.Proofs.Refinement.Family
import ScalarRoots.Proofs.Refinement.Steps

/-!
# Reports are honest

A report says how a refinement ended, and what it says can be trusted: the value is that of
the function at the root, a residual that is called small is small, one that is not is not,
and only iterations that ran out are reported as such.  Two facts about a scheme are enough
for this: its newest points lie on the graph, and it finishes with the residual exactly when
the residual is below the tolerance.

## Key results

- `Scheme.IsFaithful`: the two facts about a scheme
- `Report.IsHonest`: what can be relied upon in a report
- `Scheme.IsFaithful.isHonest_report`: a faithful scheme makes honest reports
- `Refinement.isFaithful`: the schemes of all six methods are faithful
- `Refinement.report_isHonest`: so their reports are honest
-/

namespace ScalarRoots

open Binary64

variable {σ : Type}

/-- Where a step leads to, if it leads anywhere. -/
def Advance.next? : Advance σ → Option σ
  | moved next => some next
  | accepted next => some next
  | stuck => none

/-- The newest points lie on the graph of `f`, and a residual ends the iteration exactly
    when it is below the tolerance. -/
structure Scheme.IsFaithful (m : Scheme σ) (f : Float → Float) (t : Tolerance) : Prop where
  onGraph : ∀ {number s advance next}, (m.step number s).outcome = .ok advance →
    advance.next? = some next → (m.newest next).OnGraph f
  residual_iff : ∀ {s}, m.criterion? s = some .residual ↔ (m.newest s).residual < t.bound

/-- What can be relied upon in a report on a refinement of `f` that was given a tolerance
    and a budget of iterations. -/
structure Report.IsHonest (f : Float → Float) (t : Tolerance) (budget : Nat) (r : Report) :
    Prop where
  root_onGraph : r.root.OnGraph f
  iterations_le : r.iterations ≤ budget
  iterations_eq : r.reason = .iterationLimit → r.iterations = budget
  isConverged_iff : r.isConverged = true ↔ r.met ≠ none
  residual_lt : r.met = some .residual → r.root.residual < t.bound
  le_residual : r.isConverged = false → t.bound ≤ r.root.residual

/-- The reason and the tolerance of an honest report go together: they are those of the ending
    that it speaks of. -/
theorem Report.IsHonest.ending_eq {f : Float → Float} {t : Tolerance} {budget : Nat} {r : Report}
    (h : r.IsHonest f t budget) :
    r.ending.reason = r.reason ∧ r.ending.criterion? = r.met := by
  have hiff := h.isConverged_iff
  unfold isConverged at hiff
  unfold ending
  -- with a tolerance that was met the reason is convergence, and without one it is not
  cases hmet : r.met with
  | some c => exact ⟨(of_decide_eq_true (hiff.2 (by rw [hmet]; exact nofun))).symm, rfl⟩
  | none =>
    have hne : r.reason ≠ .toleranceReached := fun heq => hiff.1 (decide_eq_true heq) hmet
    cases hreason : r.reason with
    | toleranceReached => exact absurd hreason hne
    | iterationLimit => exact ⟨rfl, rfl⟩
    | singularSystem => exact ⟨rfl, rfl⟩

/-- The residual of a point of the graph is a number. -/
theorem Point.OnGraph.isNaN_residual {f : Float → Float} {p : Point Float} (h : p.OnGraph f) :
    p.residual.isNaN = false := by
  unfold residual
  rw [isNaN_abs]
  exact isNaN_of_isFinite h.finite

/-- A residual on the graph that is not below the tolerance is at least as large. -/
theorem Point.OnGraph.le_residual {f : Float → Float} {t : Tolerance} {p : Point Float}
    (h : p.OnGraph f) (hlt : ¬ p.residual < t.bound) : t.bound ≤ p.residual :=
  le_of_not_lt h.isNaN_residual (isNaN_of_isFinite t.finite) hlt

/-! ## Faithful schemes -/

namespace Scheme

variable {m : Scheme σ} {f : Float → Float} {t : Tolerance} {s₀ : σ}

/-- The newest point of a state that is visited lies on the graph, if that of the start does. -/
theorem IsFaithful.newest_onGraph (hm : m.IsFaithful f t) (h₀ : (m.newest s₀).OnGraph f)
    {done : Nat} {best : Point Float} {s : σ} (h : m.Visits s₀ done best s) :
    (m.newest s).OnGraph f :=
  Visits.invariant (P := fun s => (m.newest s).OnGraph f) h₀
    (fun _ _ hstep => hm.onGraph hstep rfl) h

/-- At a state that does not end the iteration by its residual, that is not below the
    tolerance. -/
theorem IsFaithful.le_residual (hm : m.IsFaithful f t) {s : σ}
    (hs : (m.newest s).OnGraph f) (hc : m.criterion? s ≠ some .residual) :
    t.bound ≤ (m.newest s).residual :=
  hs.le_residual fun hlt => hc (hm.residual_iff.2 hlt)

/-- The best point of an iteration that goes on lies on the graph, and its residual is not
    below the tolerance: it is the newest point of a state that did not end the iteration. -/
theorem IsFaithful.best (hm : m.IsFaithful f t) (h₀ : (m.newest s₀).OnGraph f)
    {done : Nat} {best : Point Float} {s : σ} (h : m.Visits s₀ done best s)
    (hgo : m.criterion? s = none) : best.OnGraph f ∧ t.bound ≤ best.residual := by
  -- the same for the newest point of any state that did not end the iteration
  have hat : ∀ {done best u}, m.Visits s₀ done best u → m.criterion? u = none →
      (m.newest u).OnGraph f ∧ t.bound ≤ (m.newest u).residual := by
    intro done best u hu hgo
    have hgraph := hm.newest_onGraph h₀ hu
    exact ⟨hgraph, hm.le_residual hgraph (by rw [hgo]; exact nofun)⟩
  -- the best point is the newest point of one of those states
  rcases h.best_eq with rfl | ⟨done', best', u, hu, hgo', rfl⟩
  · exact hat h hgo
  · exact hat hu hgo'

/-- A faithful scheme makes honest reports, however it ends. -/
theorem IsFaithful.isHonest_report (hm : m.IsFaithful f t) (h₀ : (m.newest s₀).OnGraph f)
    {budget : Nat} {fin : Finish} (h : m.Ends s₀ budget fin) (evaluations : Nat) :
    (fin.report m.algorithm evaluations).IsHonest f t budget := by
  -- The ways to end differ in where the root comes from, and in what was tested there.
  cases h with
  | met hvis hle hc =>
    exact {
      root_onGraph := hm.newest_onGraph h₀ hvis
      iterations_le := hle
      iterations_eq := nofun
      isConverged_iff := iff_of_true rfl nofun
      residual_lt := fun hres => by
        cases hres
        exact hm.residual_iff.1 hc
      le_residual := nofun }
  | exhausted hvis hgo =>
    obtain ⟨hgraph, hlarge⟩ := hm.best h₀ hvis hgo
    exact {
      root_onGraph := hgraph
      iterations_le := Nat.le_refl _
      iterations_eq := fun _ => rfl
      isConverged_iff := iff_of_false nofun (· rfl)
      residual_lt := nofun
      le_residual := fun _ => hlarge }
  | accepted hvis hlt _ hstep =>
    exact {
      root_onGraph := hm.onGraph hstep rfl
      iterations_le := hlt
      iterations_eq := nofun
      isConverged_iff := iff_of_true rfl nofun
      residual_lt := nofun
      le_residual := nofun }
  | stuck hvis hlt hgo =>
    have hgraph := hm.newest_onGraph h₀ hvis
    exact {
      root_onGraph := hgraph
      iterations_le := Nat.le_of_lt hlt
      iterations_eq := nofun
      isConverged_iff := iff_of_false nofun (· rfl)
      residual_lt := nofun
      le_residual := fun _ => hm.le_residual hgraph (by rw [hgo]; exact nofun) }

/-- Where no step is accepted for being small, an iteration that ends with a small step ends
    at a state that says so. -/
theorem Ends.exists_of_step
    (haccept : ∀ number s next, (m.step number s).outcome ≠ .ok (.accepted next))
    {budget : Nat} {fin : Finish} (h : m.Ends s₀ budget fin)
    (hc : fin.met = some .step) :
    ∃ done best s, m.Visits s₀ done best s ∧ m.criterion? s = some .step ∧
      fin = ⟨m.newest s, done, .toleranceReached, some .step, m.stencil s⟩ := by
  cases h with
  | met hvis _ hmet =>
    -- the tolerance that was met is the small step
    cases hc
    exact ⟨_, _, _, hvis, hmet, rfl⟩
  -- the other ways to end meet no tolerance, or accept a step
  | exhausted => cases hc
  | accepted _ _ _ hstep => exact absurd hstep (haccept _ _ _)
  | stuck => cases hc

/-- The newest point of that state is the root. -/
theorem Ends.of_step (haccept : ∀ number s next, (m.step number s).outcome ≠ .ok (.accepted next))
    {budget : Nat} {fin : Finish} (h : m.Ends s₀ budget fin)
    (hc : fin.met = some .step) :
    ∃ done best s, m.Visits s₀ done best s ∧ m.criterion? s = some .step ∧
      fin.root = m.newest s := by
  obtain ⟨done, best, s, hvis, hmet, rfl⟩ := h.exists_of_step haccept hc
  exact ⟨done, best, s, hvis, hmet, rfl⟩

/-- Where a step is never stuck, no iteration ends in a singular system. -/
theorem Ends.reason_ne (hstuck : ∀ number s, (m.step number s).outcome ≠ .ok .stuck)
    {budget : Nat} {fin : Finish} (h : m.Ends s₀ budget fin) :
    fin.reason ≠ .singularSystem := by
  cases h with
  | stuck _ _ _ hstep => exact absurd hstep (hstuck _ _)
  | _ => exact Reason.noConfusion

end Scheme

/-! ## The six methods -/

/-- What a step of any method can do.  It leads to a point of the graph, where Chebyshev's
    method may accept it, or it is a step of Muller's method and stuck. -/
theorem Refinement.step_cases {m : Refinement} {f : Float → Float} {t : Tolerance}
    {number : Nat} {s : m.State} {advance : Advance m.State}
    (h : ((m.scheme f t).step number s).outcome = .ok advance) :
    (∃ next, ((m.scheme f t).newest next).OnGraph f ∧
      (advance = .moved next ∨ advance = .accepted next ∧ m.algorithm = .chebyshev)) ∨
      advance = .stuck ∧ m.algorithm = .muller := by
  -- By the method, from the description of its step.
  cases m with
  | newton df x₀ =>
    obtain ⟨_, p, -, hp, hmove⟩ := Newton.step_eq_ok.1 h
    exact .inl ⟨OnePoint.moveTo s p, (evaluatePoint_eq_ok.1 hp).2, .inl hmove⟩
  | chebyshev df d2f x₀ =>
    obtain ⟨_, _, p, -, -, -, hp, hmove⟩ := Chebyshev.step_eq_ok.1 h
    have hgraph := (evaluatePoint_eq_ok.1 hp).2
    split at hmove
    · exact .inl ⟨OnePoint.moveTo s p, hgraph, .inr ⟨hmove, rfl⟩⟩
    · exact .inl ⟨OnePoint.moveTo s p, hgraph, .inl hmove⟩
  | multipoint df rule x₀ =>
    obtain ⟨_, p, -, hp, hmove⟩ := Multipoint.step_eq_ok.1 h
    exact .inl ⟨OnePoint.moveTo s p, (evaluatePoint_eq_ok.1 hp).2, .inl hmove⟩
  | secant x₀ x₁ =>
    obtain ⟨p, hp, hmove⟩ := Secant.step_eq_ok.1 h
    exact .inl ⟨_, TwoPoint.onGraph_of_interceptPoint hp, .inl hmove⟩
  | falsePosition x₀ x₁ =>
    obtain ⟨p, hp, hmove⟩ := FalsePosition.step_eq_ok.1 h
    have hgraph := TwoPoint.onGraph_of_interceptPoint hp
    exact .inl ⟨_, FalsePosition.newer_onGraph_advance s hgraph, .inl hmove⟩
  | muller x₀ x₁ x₂ =>
    rcases Muller.step_eq_ok.1 h with ⟨-, hstuck⟩ | ⟨_, _, p, -, -, -, hp, hmove⟩
    · exact .inr ⟨hstuck, rfl⟩
    · exact .inl ⟨ThreePoint.mk _ _ p, (evaluatePoint_eq_ok.1 hp).2, .inl hmove⟩

/-- A residual below the tolerance ends an iteration by any method. -/
theorem Refinement.criterion?_eq_residual {m : Refinement} {f : Float → Float} {t : Tolerance}
    {s : m.State} :
    (m.scheme f t).criterion? s = some .residual ↔
      ((m.scheme f t).newest s).residual < t.bound := by
  cases m with
  | newton df x₀ => exact OnePoint.criterion?_eq_some.trans (and_iff_right rfl)
  | chebyshev df d2f x₀ => exact OnePoint.criterion?_eq_some.trans (and_iff_right rfl)
  | multipoint df rule x₀ => exact OnePoint.criterion?_eq_some.trans (and_iff_right rfl)
  | secant x₀ x₁ => exact TwoPoint.criterion?_eq_residual
  | falsePosition x₀ x₁ => exact TwoPoint.criterion?_eq_residual
  | muller x₀ x₁ x₂ => exact Muller.criterion?_eq_some.trans (and_iff_right rfl)

/-- Only the methods from two points test the length of a step. -/
theorem Refinement.criterion?_ne_step {m : Refinement} {f : Float → Float} {t : Tolerance}
    (hsecant : m.algorithm ≠ .secant) (hfalse : m.algorithm ≠ .falsePosition) (s : m.State) :
    (m.scheme f t).criterion? s ≠ some .step := by
  intro h
  cases m with
  | newton df x₀ => cases (OnePoint.criterion?_eq_some.1 h).1
  | chebyshev df d2f x₀ => cases (OnePoint.criterion?_eq_some.1 h).1
  | multipoint df rule x₀ => cases (OnePoint.criterion?_eq_some.1 h).1
  | secant x₀ x₁ => exact hsecant rfl
  | falsePosition x₀ x₁ => exact hfalse rfl
  | muller x₀ x₁ x₂ => cases (Muller.criterion?_eq_some.1 h).1

/-- A start that succeeds has its newest point on the graph. -/
theorem Refinement.newest_onGraph_of_start {m : Refinement} {f : Float → Float} {t : Tolerance}
    {s : m.State} (h : (m.start f).outcome = .ok s) :
    ((m.scheme f t).newest s).OnGraph f := by
  cases m with
  | newton df x₀ => exact (OnePoint.start_eq_ok.1 h).2.2
  | chebyshev df d2f x₀ => exact (OnePoint.start_eq_ok.1 h).2.2
  | multipoint df rule x₀ => exact (OnePoint.start_eq_ok.1 h).2.2
  | secant x₀ x₁ => exact (TwoPoint.start_eq_ok.1 h).2.2.2
  | falsePosition x₀ x₁ => exact (TwoPoint.start_eq_ok.1 h).2.2.2
  | muller x₀ x₁ x₂ => exact (Muller.start_eq_ok.1 h).2.2.2.2

/-! ## Reports of the six methods -/

namespace Refinement

/-- The schemes of all six methods are faithful. -/
theorem isFaithful (m : Refinement) (f : Float → Float) (t : Tolerance) :
    (m.scheme f t).IsFaithful f t where
  onGraph := by
    intro number s advance next h hnext
    rcases step_cases h with ⟨next', hgraph, rfl | ⟨rfl, -⟩⟩ | ⟨rfl, -⟩
    · cases hnext
      exact hgraph
    · cases hnext
      exact hgraph
    · cases hnext
  residual_iff := criterion?_eq_residual

/-- Only Chebyshev's method accepts a point because the step to it was small. -/
theorem step_ne_accepted {m : Refinement} {f : Float → Float} {t : Tolerance}
    (hm : m.algorithm ≠ .chebyshev) (number : Nat) (s next : m.State) :
    ((m.scheme f t).step number s).outcome ≠ .ok (.accepted next) := by
  intro h
  rcases step_cases h with ⟨_, -, hmoved | ⟨-, hcheb⟩⟩ | ⟨hstuck, -⟩
  · cases hmoved
  · exact hm hcheb
  · cases hstuck

/-- Only Muller's method can be stuck. -/
theorem step_ne_stuck {m : Refinement} {f : Float → Float} {t : Tolerance}
    (hm : m.algorithm ≠ .muller) (number : Nat) (s : m.State) :
    ((m.scheme f t).step number s).outcome ≠ .ok .stuck := by
  intro h
  rcases step_cases h with ⟨_, -, hmoved | ⟨haccepted, -⟩⟩ | ⟨-, hmuller⟩
  · cases hmoved
  · cases haccepted
  · exact hm hmuller

/-- What a refinement that answers went through: a start on the graph and a course that
    ended where the report says. -/
theorem exists_ends_of_run {m : Refinement} {f : Float → Float} {settings : Settings}
    {r : Report} (h : (m.run f settings).outcome = .ok r) :
    ∃ s₀ fin evaluations, ((m.scheme f settings.tolerance).newest s₀).OnGraph f ∧
      (m.scheme f settings.tolerance).Ends s₀
        (m.algorithm.budget (settings.iterations.map (·.toNat))) fin ∧
      r = fin.report (m.scheme f settings.tolerance).algorithm evaluations := by
  rw [run_eq] at h
  obtain ⟨s₀, fin, evaluations, hstart, hends, hr⟩ := exists_ends_of_refine h
  rw [algorithm_scheme] at hends
  exact ⟨s₀, fin, evaluations, newest_onGraph_of_start hstart, hends, hr⟩

/-- Reports are honest, for all six methods.  The value is that of the function at the root
    and finite.  No more iterations are reported than the budget allows, and all of them
    when they ran out.  A report of convergence names the tolerance that was met; a residual
    that was met is below the tolerance, and without convergence the residual is not.  Newton,
    Muller and multipoint iterations never end with a small step; where secant and false
    position iterations do, the residual is not below the tolerance.  Only Muller's method
    ends in a singular system. -/
theorem report_isHonest (m : Refinement) (f : Float → Float) (settings : Settings) (r : Report)
    (h : (m.run f settings).outcome = .ok r) :
    r.IsHonest f settings.tolerance
        (m.algorithm.budget (settings.iterations.map (·.toNat))) ∧
      (m.algorithm = .newton ∨ m.algorithm = .muller ∨ m.algorithm = .multipoint →
        r.met ≠ some .step) ∧
      (m.algorithm = .secant ∨ m.algorithm = .falsePosition →
        r.met = some .step → settings.tolerance.bound ≤ r.root.residual) ∧
      (r.reason = .singularSystem → m.algorithm = .muller) := by
  obtain ⟨s₀, fin, evaluations, h₀, hends, rfl⟩ := exists_ends_of_run h
  have hm := m.isFaithful f settings.tolerance
  refine ⟨hm.isHonest_report h₀ hends evaluations, fun hnever hstep => ?_,
    fun htwo hstep => ?_, fun hsingular => ?_⟩
  · -- a small step would have to be tested or accepted, and these methods do neither
    have haccept := step_ne_accepted (m := m) (f := f) (t := settings.tolerance)
      (by rcases hnever with h | h | h <;> rw [h] <;> decide)
    obtain ⟨_, _, s, -, hc, -⟩ := hends.of_step haccept hstep
    refine criterion?_ne_step ?_ ?_ s hc <;>
      rcases hnever with h | h | h <;> rw [h] <;> decide
  · -- the residual is tested before the step
    have haccept := step_ne_accepted (m := m) (f := f) (t := settings.tolerance)
      (by rcases htwo with h | h <;> rw [h] <;> decide)
    obtain ⟨_, _, s, hvis, hc, hroot⟩ := hends.of_step haccept hstep
    show _ ≤ fin.root.residual
    rw [hroot]
    exact hm.le_residual (hm.newest_onGraph h₀ hvis) (by rw [hc]; decide)
  · -- all other methods are never stuck
    by_cases hmuller : m.algorithm = .muller
    · exact hmuller
    · exact absurd hsingular (hends.reason_ne (step_ne_stuck hmuller))

/-- Newton's method reports honestly on the root of two. -/
theorem report_isHonest_root_two :
    ∃ r, ((newton (fun x => 2 * x) 1).run (fun x => x * x - 2) {}).outcome = .ok r ∧
      r.IsHonest (fun x => x * x - 2) .default 50 ∧ r.met ≠ some .step := by
  obtain ⟨r, hr⟩ := Run.exists_outcome_eq_ok
    (show ((newton (fun x => 2 * x) 1).run (fun x => x * x - 2) {}).outcome.isOk = true by
      decide +kernel)
  obtain ⟨hhonest, hstep, -, -⟩ :=
    report_isHonest (newton (fun x => 2 * x) 1) (fun x => x * x - 2) {} r hr
  exact ⟨r, hr, hhonest, hstep (.inl rfl)⟩

end Refinement

end ScalarRoots
