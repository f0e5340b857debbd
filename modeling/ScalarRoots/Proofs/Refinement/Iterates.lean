import ScalarRoots.Proofs.Refinement.Best

/-!
# The iterates of the methods from one point

The methods from one point are given by a rule that leads from a location to the next.  So their
iterates are those of the rule, and a state holds the last two of them.  What is offered when
the iterations run out is the first best iterate, the start included.

## Key results

- `Refinement.IteratesBy`: the rules of the methods
- `OnePoint.GoesBy`: a step that goes by a rule
- `OnePoint.GoesBy.state_of_visits`: the state after some number of steps
- `Refinement.root_isFirstBest_iterate`: the iterate that is offered in the end
-/

namespace ScalarRoots

/-- The method goes from `x₀` on by the rule `next`. -/
inductive Refinement.IteratesBy (f : Float → Float) :
    Refinement → (x₀ : Float) → (next : Float → Float) → Prop where
  | newton (df : Float → Float) (x₀ : Float) :
      IteratesBy f (newton df x₀) x₀ fun x => x - f x / df x
  | chebyshev (df d2f : Float → Float) (x₀ : Float) :
      IteratesBy f (chebyshev df d2f x₀) x₀ fun x =>
        (x - f x / df x) - 0.5 * f x * f x * d2f x / (df x * df x * df x)
  | midpointDerivative (df : Float → Float) (x₀ : Float) :
      IteratesBy f (multipoint df .midpointDerivative x₀) x₀ fun x =>
        x - f x / df (x - 0.5 * (f x / df x))
  | predictorCorrector (df : Float → Float) (x₀ : Float) :
      IteratesBy f (multipoint df .predictorCorrector x₀) x₀ fun x =>
        (x - f x / df x) - f (x - f x / df x) / df x

namespace OnePoint

/-- A step that moves on goes to the point above the location that the rule names. -/
def GoesBy (f next : Float → Float)
    (step : Nat → OnePoint → Run RefineError (Advance OnePoint)) : Prop :=
  ∀ number s s', s.current.OnGraph f → (step number s).outcome = .ok (.moved s') →
    s' = s.moveTo ⟨next s.current.x, f (next s.current.x)⟩ ∧ s'.current.OnGraph f

/-- Where a point has been evaluated, the move to it goes to the graph of the function. -/
theorem moveTo_of_evaluatePoint {f : Float → Float} {s s' : OnePoint} {x : Float}
    {p : Point Float} (hp : (evaluatePoint f x).outcome = .ok p)
    (hmove : Advance.moved s' = .moved (s.moveTo p)) :
    s' = s.moveTo ⟨x, f x⟩ ∧ s'.current.OnGraph f := by
  obtain ⟨rfl, hgraph⟩ := evaluatePoint_eq_ok.1 hp
  cases hmove
  exact ⟨rfl, hgraph⟩

/-! ## The state after some number of steps -/

variable {f next : Float → Float} {step : Nat → OnePoint → Run RefineError (Advance OnePoint)}
  {a : Algorithm} {t : Tolerance} {x₀ : Float}

/-- The iterate with the given number, the start being that with number zero. -/
def nth (f next : Float → Float) (x₀ : Float) (number : Nat) : Point Float :=
  ⟨next^[number] x₀, f (next^[number] x₀)⟩

/-- A state holds the last two iterates; the best point so far is the first best of all. -/
theorem GoesBy.state_of_visits (hstep : GoesBy f next step) (h₀ : (nth f next x₀ 0).OnGraph f)
    {done : Nat} {best : Point Float} {s : OnePoint}
    (h : (scheme a t step).Visits ⟨x₀, nth f next x₀ 0⟩ done best s) :
    s = ⟨next^[done - 1] x₀, nth f next x₀ done⟩ ∧ s.current.OnGraph f ∧
      best.IsFirstBest ((List.range (done + 1)).map (nth f next x₀)) := by
  -- induction on the states that are visited
  induction h with
  | start => exact ⟨rfl, h₀, Point.isFirstBest_singleton h₀.isNaN_residual⟩
  | @moved done best s s' _ _ hmoved ih =>
    obtain ⟨rfl, hgraph, hbest⟩ := ih
    obtain ⟨rfl, hgraph'⟩ := hstep _ _ _ hgraph hmoved
    -- one more application of the rule
    have hnext : (⟨next (next^[done] x₀), f (next (next^[done] x₀))⟩ : Point Float) =
        nth f next x₀ (done + 1) := by
      rw [nth, Function.iterate_succ_apply']
    refine ⟨congrArg (OnePoint.mk _) hnext, hgraph', ?_⟩
    -- the newest iterate joins the list of those before
    rw [List.range_succ, List.map_append, List.map_singleton, ← hnext]
    exact hbest.better hgraph'.isNaN_residual

end OnePoint

/-- The report says that the iterations ran out.  It offers the first best of the iterates, from
    the start to the newest one, and its stencil holds the newest but one. -/
structure Report.OffersBestIterate (f next : Float → Float) (x₀ : Float) (budget : Nat)
    (r : Report) : Prop where
  iterations_eq : r.iterations = budget
  budget_pos : 0 < budget
  root_isFirstBest :
    r.root.IsFirstBest ((List.range (budget + 1)).map (OnePoint.nth f next x₀))
  stencil_eq : r.stencil = .single (next^[budget - 1] x₀)

/-- A refinement whose steps go by a rule offers the best iterate of the rule. -/
theorem OnePoint.GoesBy.offersBestIterate {f next : Float → Float}
    {step : Nat → OnePoint → Run RefineError (Advance OnePoint)} {a : Algorithm} {t : Tolerance}
    {x₀ : Float} {settings : Settings} {r : Report} (hstep : GoesBy f next step)
    (h : RunsOut (refine (scheme a t step) settings (start f x₀)) r) :
    r.OffersBestIterate f next x₀ (a.budget (settings.iterations.map (·.toNat))) := by
  obtain ⟨s₀, best, s, _, hs₀, hvis, -, rfl⟩ := h.exists_visits
  obtain ⟨-, rfl, h₀⟩ := start_eq_ok.1 hs₀
  -- a limit that is set is positive, and so is that of every method without one
  have hpos : 0 < a.budget (settings.iterations.map (·.toNat)) := by
    refine Algorithm.budget_pos fun n hn => ?_
    obtain ⟨iterations, -, rfl⟩ := Option.mem_map.1 hn
    exact iterations.pos
  obtain ⟨rfl, -, hbest⟩ := hstep.state_of_visits h₀ hvis
  exact ⟨rfl, hpos, hbest, rfl⟩

/-! ## The rules of the methods -/

/-- Newton's method subtracts the Newton step. -/
theorem Newton.goesBy (f df : Float → Float) :
    OnePoint.GoesBy f (fun x => x - f x / df x) (step f df) := by
  intro number s s' hs h
  obtain ⟨newton, p, hnewton, hp, hmove⟩ := step_eq_ok.1 h
  obtain ⟨rfl, -, -⟩ := newtonStep_eq_ok.1 hnewton
  rw [hs.value_eq] at hp
  exact OnePoint.moveTo_of_evaluatePoint hp hmove

/-- Chebyshev's method subtracts its correction as well. -/
theorem Chebyshev.goesBy (f df d2f : Float → Float) (t : Tolerance) :
    OnePoint.GoesBy f
      (fun x => (x - f x / df x) - 0.5 * f x * f x * d2f x / (df x * df x * df x))
      (step f df d2f t) := by
  intro number s s' hs h
  obtain ⟨newton, curvature, p, hnewton, hcurvature, -, hp, hmove⟩ := step_eq_ok.1 h
  obtain ⟨rfl, -, -⟩ := newtonStep_eq_ok.1 hnewton
  obtain ⟨rfl, -⟩ := evaluate_eq_ok.1 hcurvature
  -- a small step is accepted and does not move on
  split at hmove
  · cases hmove
  · rw [corrected, hs.value_eq] at hp
    exact OnePoint.moveTo_of_evaluatePoint hp hmove

namespace Multipoint

/-- A quotient that passes its check is the quotient. -/
theorem checkedRatio_eq_ok {y x slope ratio : Float}
    (h : (checkedRatio y x slope).outcome = .ok ratio) : ratio = y / slope := by
  simp only [checkedRatio] at h
  split at h
  · cases h
    rfl
  · cases h

/-- The second location that a rule evaluates at, half a Newton step away or a whole one. -/
def midway (df : Float → Float) (rule : MultipointRule) (p : Point Float) : Float :=
  match rule with
  | .midpointDerivative => p.x - 0.5 * (p.y / df p.x)
  | .predictorCorrector => p.x - p.y / df p.x

/-- The location that a step leads to. -/
def target (f df : Float → Float) (rule : MultipointRule) (p : Point Float) : Float :=
  let z := midway df rule p
  match rule with
  | .midpointDerivative => p.x - p.y / df z
  | .predictorCorrector => z - f z / df p.x

/-- A location that is found is the target. -/
theorem eq_target_of_nextLocation {f df : Float → Float} {rule : MultipointRule}
    {p : Point Float} {x : Float} (h : (nextLocation f df rule p).outcome = .ok x) :
    x = target f df rule p := by
  obtain ⟨slope, hslope, hrest⟩ := Run.outcome_bind_eq_ok.1 h
  obtain ⟨rfl, -⟩ := evaluate_eq_ok.1 hslope
  obtain ⟨newton, hnewton, hrest⟩ := Run.outcome_bind_eq_ok.1 hrest
  obtain rfl := checkedRatio_eq_ok hnewton
  -- each rule makes a second evaluation, and a second quotient of it
  -- each rule makes a second evaluation, and a second quotient of it
  cases rule with
  | midpointDerivative =>
    obtain ⟨slope, hslope, hrest⟩ := Run.outcome_bind_eq_ok.1 hrest
    obtain ⟨rfl, -⟩ := evaluate_eq_ok.1 hslope
    obtain ⟨ratio, hratio, hx⟩ := Run.outcome_bind_eq_ok.1 hrest
    obtain rfl := checkedRatio_eq_ok hratio
    cases hx
    rfl
  | predictorCorrector =>
    obtain ⟨predicted, hpredicted, hrest⟩ := Run.outcome_bind_eq_ok.1 hrest
    obtain ⟨rfl, -⟩ := evaluatePoint_eq_ok.1 hpredicted
    obtain ⟨ratio, hratio, hx⟩ := Run.outcome_bind_eq_ok.1 hrest
    obtain rfl := checkedRatio_eq_ok hratio
    cases hx
    rfl

/-- The midpoint rule divides by the slope at half a Newton step. -/
theorem goesBy_midpointDerivative (f df : Float → Float) :
    OnePoint.GoesBy f (fun x => x - f x / df (x - 0.5 * (f x / df x)))
      (step f df .midpointDerivative) := by
  intro number s s' hs h
  obtain ⟨x, p, hx, hp, hmove⟩ := step_eq_ok.1 h
  obtain rfl := eq_target_of_nextLocation hx
  -- on the graph, the residual of the point is the value of the function
  simp only [target, midway, hs.value_eq] at hp
  exact OnePoint.moveTo_of_evaluatePoint hp hmove

/-- The predictor rule makes a second step with the slope of the first. -/
theorem goesBy_predictorCorrector (f df : Float → Float) :
    OnePoint.GoesBy f (fun x => (x - f x / df x) - f (x - f x / df x) / df x)
      (step f df .predictorCorrector) := by
  intro number s s' hs h
  obtain ⟨x, p, hx, hp, hmove⟩ := step_eq_ok.1 h
  obtain rfl := eq_target_of_nextLocation hx
  simp only [target, midway, hs.value_eq] at hp
  exact OnePoint.moveTo_of_evaluatePoint hp hmove

end Multipoint

/-! ## Reports -/

namespace Refinement

/-- What the methods from one point offer when their iterations run out, for Newton's method,
    Chebyshev's method and the multipoint iteration by either rule.  All iterations are used up.
    Of the iterates, the start included, the root is the first one whose residual is the least,
    with the value of the function there.  The stencil holds the newest iterate but one, from
    which the newest was made. -/
theorem root_isFirstBest_iterate (m : Refinement) (f : Float → Float) (settings : Settings)
    (r : Report) (x₀ : Float) (next : Float → Float) (hm : m.IteratesBy f x₀ next)
    (h : RunsOut (m.run f settings) r) :
    r.OffersBestIterate f next x₀ (m.algorithm.budget (settings.iterations.map (·.toNat))) := by
  cases hm with
  | newton df => exact (Newton.goesBy f df).offersBestIterate h
  | chebyshev df d2f => exact (Chebyshev.goesBy f df d2f _).offersBestIterate h
  | midpointDerivative df => exact (Multipoint.goesBy_midpointDerivative f df).offersBestIterate h
  | predictorCorrector df => exact (Multipoint.goesBy_predictorCorrector f df).offersBestIterate h

/-- Two iterations of Newton's method towards the root of two. -/
theorem root_isFirstBest_iterate_root_two :
    ∃ r, RunsOut ((newton (fun x => 2 * x) 1).run (fun x => x * x - 2)
        { iterations := some ⟨2, Nat.two_pos⟩ }) r ∧
      r.OffersBestIterate (fun x => x * x - 2) (fun x => x - (x * x - 2) / (2 * x)) 1 2 := by
  obtain ⟨r, hout⟩ := exists_runsOut
    (x := (newton (fun x => 2 * x) 1).run (fun x => x * x - 2)
      { iterations := some ⟨2, Nat.two_pos⟩ }) (by decide +kernel)
  exact ⟨r, hout, root_isFirstBest_iterate _ _ _ r 1 _ (.newton _ _) hout⟩

end Refinement

end ScalarRoots
