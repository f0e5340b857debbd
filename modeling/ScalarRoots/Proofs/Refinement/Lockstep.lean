import ScalarRoots.Proofs.Refinement.Accounting

/-!
# Iterations in step

Two methods with the same kind of state may do the same at every state that they come to, except
that they word an error differently or mean something else by their stencil.  Then they go
through the same states, and they end in the same way: where one of them comes to an end or fails,
so does the other.

## Key results

- `Scheme.Resembles`: what the two methods have in common at every state
- `Scheme.Resembles.outcome_iterate`: iterations whose steps agree have the same outcome
- `Scheme.Resembles.outcome_refine`: and so have refinements, up to what they cost
-/

namespace ScalarRoots

variable {σ : Type}

/-- Errors that are kept change nothing. -/
theorem Except.mapError_id {ε α : Type} (x : Except ε α) : x.mapError id = x := by
  cases x <;> rfl

/-- The two methods have the same newest point and make the same tests, and the stencil of the
    second is that of the first in another view. -/
structure Scheme.Resembles (m m' : Scheme σ) (view : Stencil → Stencil) : Prop where
  newest_eq : ∀ s, m'.newest s = m.newest s
  criterion?_eq : ∀ s, m'.criterion? s = m.criterion? s
  stencil_eq : ∀ s, m'.stencil s = view (m.stencil s)

/-- At every state that the first method leaves within the budget, a step of the second does the
    same, with its errors renamed. -/
def Scheme.AgreesWithin (m m' : Scheme σ) (rename : RefineError → RefineError) (budget : Nat)
    (s₀ : σ) : Prop :=
  ∀ done best s, m.Visits s₀ done best s → done < budget → m.criterion? s = none →
    (m'.step (done + 1) s).outcome = (m.step (done + 1) s).outcome.mapError rename

/-- The same end with the stencil in another view. -/
def Finish.viewed (view : Stencil → Stencil) (fin : Finish) : Finish :=
  { fin with stencil := view fin.stencil }

/-- The report of a method `a` that went the same way: it has another view of the stencil, and it
    evaluates some more times in every iteration. -/
def Report.retold (a : Algorithm) (view : Stencil → Stencil) (extra : Nat) (r : Report) : Report :=
  { r with
    algorithm := a
    evaluations := r.evaluations + r.iterations * extra
    stencil := view r.stencil }

namespace Scheme.Resembles

variable {m m' : Scheme σ} {view : Stencil → Stencil} {rename : RefineError → RefineError}
  {s₀ : σ} {budget : Nat}

/-- Iterations in step, from the middle of their course. -/
private theorem outcome_iterate_from (hm : m.Resembles m' view)
    (hagree : m.AgreesWithin m' rename budget s₀) (start start' : Stencil) {left done : Nat}
    {best : Point Float} {s : σ} (hvis : m.Visits s₀ done best s) (hle : done + left ≤ budget) :
    (iterate m' start' left done best s).outcome =
      ((iterate m start left done best s).outcome.mapError rename).map (Finish.viewed view) := by
  -- Both are at the same state, which the first method has visited.  The course of the second is
  -- not looked at: that it visits the state too is what the induction shows.
  induction left generalizing done best s with
  | zero =>
    cases hc : m.criterion? s with
    | some c =>
      rw [iterate_of_met hc, iterate_of_met ((hm.criterion?_eq s).trans hc), hm.newest_eq,
        hm.stencil_eq]
      rfl
    | none =>
      rw [iterate_exhausted hc, iterate_exhausted ((hm.criterion?_eq s).trans hc), hm.stencil_eq]
      rfl
  | succ left ih =>
    cases hc : m.criterion? s with
    | some c =>
      rw [iterate_of_met hc, iterate_of_met ((hm.criterion?_eq s).trans hc), hm.newest_eq,
        hm.stencil_eq]
      rfl
    | none =>
      rw [iterate_succ hc, iterate_succ ((hm.criterion?_eq s).trans hc), Run.outcome_bind,
        Run.outcome_bind, hagree done best s hvis (by omega) hc]
      cases hstep : (m.step (done + 1) s).outcome with
      | error e => rfl
      | ok advance =>
        cases advance with
        | moved next =>
          show (iterate m' start' left (done + 1) (best.better (m'.newest next)) next).outcome = _
          rw [hm.newest_eq]
          exact ih (.moved hvis hc hstep) (by omega)
        | accepted next =>
          show Except.ok _ = Except.ok _
          rw [hm.newest_eq, hm.stencil_eq]
          rfl
        | stuck =>
          show Except.ok _ = Except.ok _
          rw [hm.newest_eq, hm.stencil_eq]
          rfl

/-- Iterations whose steps agree have the same outcome. -/
theorem outcome_iterate (hm : m.Resembles m' view) (hagree : m.AgreesWithin m' rename budget s₀)
    (start start' : Stencil) :
    (iterate m' start' budget 0 (m'.newest s₀) s₀).outcome =
      ((iterate m start budget 0 (m.newest s₀) s₀).outcome.mapError rename).map
        (Finish.viewed view) := by
  rw [hm.newest_eq]
  exact hm.outcome_iterate_from hagree start start' .start (by omega)

/-- Refinements whose steps agree have the same outcome, up to what they cost.  An error of the
    start, which is the same for both, keeps its name. -/
theorem outcome_refine (hm : m.Resembles m' view) {start : Run RefineError σ}
    {opening quantities quantities' : List Quantity} {extra : Nat}
    (hcost : m.IsAccounted quantities) (hcost' : m'.IsAccounted quantities')
    (hextra : quantities'.length = quantities.length + extra)
    (hstart : start.IsAccounted m.algorithm opening [])
    (hstart' : start.IsAccounted m'.algorithm opening []) {settings : Settings}
    (hbudget : m'.algorithm.budget (settings.iterations.map (·.toNat)) =
      m.algorithm.budget (settings.iterations.map (·.toNat)))
    (hrename : ∀ e, start.outcome = .error e → rename e = e)
    (hagree : ∀ s₀, start.outcome = .ok s₀ → m.AgreesWithin m' rename
      (m.algorithm.budget (settings.iterations.map (·.toNat))) s₀) :
    (refine m' settings start).outcome =
      ((refine m settings start).outcome.mapError rename).map
        (Report.retold m'.algorithm view extra) := by
  cases hs₀ : start.outcome with
  | error e =>
    -- neither begins to iterate
    unfold refine
    rw [Run.outcome_counted, Run.outcome_counted, Run.bind_of_error hs₀, Run.bind_of_error hs₀]
    show Except.error e = Except.error (rename e)
    rw [hrename e hs₀]
  | ok s₀ =>
    rw [hcost.outcome_refine hstart settings hs₀, hcost'.outcome_refine hstart' settings hs₀,
      hbudget, hm.outcome_iterate (hagree s₀ hs₀) (m.stencil s₀), hextra]
    cases (iterate m (m.stencil s₀) (m.algorithm.budget (settings.iterations.map (·.toNat))) 0
      (m.newest s₀) s₀).outcome with
    | error e => rfl
    | ok fin =>
      -- the same number of iterations, in each of which the second evaluates some more times
      show Except.ok (Finish.report _ _ (_ + fin.iterations * _)) = Except.ok (Report.retold _ _ _ _)
      rw [Nat.mul_add, ← Nat.add_assoc]
      rfl

end Scheme.Resembles

end ScalarRoots
