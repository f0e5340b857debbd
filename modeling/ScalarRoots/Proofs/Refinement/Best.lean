import ScalarRoots.Proofs.Refinement.Budget

/-!
# The best point

An iteration keeps the best point it has been at, and of equally good ones the first.  It begins
to do so with its newest start, so what the methods from several points offer when they run out
of iterations is the best of all points but their older starts.  One of these may be better.

## Key results

- `Point.IsFirstBest`: the first one of the best points of a list
- `Point.IsFirstBest.better`: one more point in the list
- `Scheme.IsFaithful.exists_trail`: the points that an iteration keeps the best of
- `Refinement.root_isFirstBest_of_runsOut`: the point that is offered in the end
- `Refinement.exists_better_start`: a start that is better
-/

namespace ScalarRoots

open Binary64

/-! ## The first best point of a list -/

namespace Point

/-- A point of the list with the least residual, and the first one of these. -/
structure IsFirstBest (p : Point Float) (ps : List (Point Float)) : Prop where
  least : ∀ q ∈ ps, p.residual ≤ q.residual
  first : ∃ before after, ps = before ++ p :: after ∧ ∀ q ∈ before, p.residual < q.residual

/-- Alone, a point is the first best one, provided its residual is a number at all. -/
theorem isFirstBest_singleton {p : Point Float} (hp : p.residual.isNaN = false) :
    p.IsFirstBest [p] :=
  ⟨List.forall_mem_singleton.2 (le_refl hp), [], [], rfl, nofun⟩

/-- The first best point is one of the list. -/
theorem IsFirstBest.mem {p : Point Float} {ps : List (Point Float)} (h : p.IsFirstBest ps) :
    p ∈ ps := by
  obtain ⟨before, after, rfl, -⟩ := h.first
  exact List.mem_append_right before List.mem_cons_self

/-- When the list grows by a point, the better of the two is the first best point. -/
theorem IsFirstBest.better {p q : Point Float} {ps : List (Point Float)} (h : p.IsFirstBest ps)
    (hq : q.residual.isNaN = false) : (p.better q).IsFirstBest (ps ++ [q]) := by
  by_cases hlt : q.residual < p.residual
  · -- the new point is better than all before, so it is the first best
    rw [better_of_lt hlt]
    have hless : ∀ r ∈ ps, q.residual < r.residual := fun r hr =>
      Binary64.lt_of_lt_of_le hlt (h.least r hr)
    refine ⟨List.forall_mem_append.2 ⟨fun r hr => le_of_lt (hless r hr), ?_⟩, ps, [], rfl, hless⟩
    exact List.forall_mem_singleton.2 (le_refl hq)
  · -- the new point may be as good, but it comes later
    rw [better_of_not_lt hlt]
    have hp : p.residual.isNaN = false := (le_iff.1 (h.least p h.mem)).1.1
    obtain ⟨before, after, rfl, hfirst⟩ := h.first
    refine ⟨List.forall_mem_append.2 ⟨h.least, ?_⟩, before, after ++ [q], by simp, hfirst⟩
    exact List.forall_mem_singleton.2 (le_of_not_lt hq hp hlt)

end Point

/-! ## Iterations -/

/-- The evaluation of the target function that a point comes from. -/
def Point.probe (p : Point Float) : Probe := ⟨.value, p.x, p.y⟩

variable {σ : Type}

/-- A step that moves on evaluates once, at the newest point of the state that it leads to. -/
def Scheme.EvaluatesNewest (m : Scheme σ) : Prop :=
  ∀ {number s next}, (m.step number s).outcome = .ok (.moved next) →
    (m.step number s).probes = [(m.newest next).probe]

/-- Of the points that an iteration has evaluated, the start included, the best point so far is
    the first best. -/
theorem Scheme.IsFaithful.exists_trail {m : Scheme σ} {f : Float → Float} {t : Tolerance}
    (hm : m.IsFaithful f t) (hprobes : m.EvaluatesNewest) {s₀ : σ}
    (h₀ : (m.newest s₀).OnGraph f) {done : Nat} {best : Point Float} {s : σ}
    (h : m.Visits s₀ done best s) :
    ∃ trail : List (Point Float), best.IsFirstBest (m.newest s₀ :: trail) ∧
      ∀ start left, (iterate m start (done + left) 0 (m.newest s₀) s₀).probes =
        trail.map Point.probe ++ (iterate m start left done best s).probes := by
  -- Induction on the visit: the trail grows with every step, and so does the list that the best
  -- point is the best of.
  induction h with
  | start =>
    refine ⟨[], Point.isFirstBest_singleton h₀.isNaN_residual, fun start left => ?_⟩
    rw [Nat.zero_add]
    rfl
  | @moved done best s next _ hgo hstep ih =>
    obtain ⟨trail, hbest, hrun⟩ := ih
    refine ⟨trail ++ [m.newest next],
      hbest.better (hm.onGraph hstep rfl).isNaN_residual, fun start left => ?_⟩
    -- the step adds the newest point to those before
    rw [Nat.add_right_comm, Nat.add_assoc, hrun, iterate_succ hgo, Run.probes_bind_of_ok hstep,
      hprobes hstep, List.map_append, List.append_assoc]
    rfl

/-- A refinement that runs out of iterations evaluates at its start and along a trail of points.
    It offers the first best of these points and the newest start. -/
theorem Scheme.IsFaithful.exists_trail_of_runsOut {m : Scheme σ} {f : Float → Float}
    {t : Tolerance} (hm : m.IsFaithful f t) (hprobes : m.EvaluatesNewest)
    {start : Run RefineError σ}
    (hstart : ∀ s₀, start.outcome = .ok s₀ → (m.newest s₀).OnGraph f) {settings : Settings}
    {r : Report} (h : RunsOut (refine m settings start) r) :
    ∃ s₀ trail, start.outcome = .ok s₀ ∧ r.root.IsFirstBest (m.newest s₀ :: trail) ∧
      (refine m settings start).probes = start.probes ++ trail.map Point.probe := by
  obtain ⟨s₀, best, s, _, hs₀, hvis, hgo, rfl⟩ := h.exists_visits
  obtain ⟨trail, hbest, hiter⟩ := hm.exists_trail hprobes (hstart s₀ hs₀) hvis
  refine ⟨s₀, trail, hs₀, hbest, ?_⟩
  have hall := hiter (m.stencil s₀) 0
  -- with no iterations left, the rest of the iteration evaluates nowhere
  rw [Nat.add_zero, iterate_exhausted hgo] at hall
  unfold refine
  show (start >>= fun s => iterate m (m.stencil s) _ 0 (m.newest s) s).probes = _
  rw [Run.probes_bind_of_ok hs₀, hall]
  exact congrArg _ (List.append_nil _)

/-! ## Methods from several points -/

/-- A secant step that succeeds evaluates once, at the point it gives. -/
theorem TwoPoint.probes_interceptPoint {f : Float → Float} {s : TwoPoint} {p : Point Float}
    (h : (s.interceptPoint f).outcome = .ok p) : (s.interceptPoint f).probes = [p.probe] := by
  obtain ⟨x, hx, hpoint⟩ := interceptPoint_eq_ok.1 h
  obtain ⟨rfl, -⟩ := evaluatePoint_eq_ok.1 hpoint
  unfold interceptPoint
  rw [hx]
  exact probes_evaluatePoint f x

/-- The secant method evaluates at the point that becomes the newer one. -/
theorem Secant.evaluatesNewest (f : Float → Float) (t : Tolerance) :
    (scheme f t).EvaluatesNewest := by
  intro number s next h
  obtain ⟨p, hp, hmove⟩ := step_eq_ok.1 h
  cases hmove
  show (step f number s).probes = _
  unfold step
  rw [Run.probes_bind_of_ok hp, TwoPoint.probes_interceptPoint hp]
  rfl

/-- So does false position, whichever of the old ends the point replaces. -/
theorem FalsePosition.evaluatesNewest (f : Float → Float) (t : Tolerance) :
    (scheme f t).EvaluatesNewest := by
  intro number s next h
  obtain ⟨p, hp, hmove⟩ := step_eq_ok.1 h
  cases hmove
  show (step f number s).probes = [(advance s p).newer.probe]
  unfold step
  -- the new point is the newer one of either bracket
  rw [Run.probes_bind_of_ok hp, TwoPoint.probes_interceptPoint hp, newer_advance]
  rfl

/-- The discriminant is worked out from values that are there already. -/
theorem Muller.probes_discriminantRoot (d : Float) :
    (liftM (discriminantRoot d) : Run RefineError Float).probes = [] := by
  unfold discriminantRoot
  split <;> rfl

/-- A check that is passed leaves no trace. -/
theorem Run.probes_check {ε α : Type} {b : Bool} {e : ε} {x : Run ε α} (hb : b = true) :
    (if (!b) = true then (throw e : Run ε PUnit) >>= fun _ => x else x).probes = x.probes := by
  rw [hb]
  rfl

/-- Muller's method evaluates at the zero of the parabola, which becomes the newest point. -/
theorem Muller.evaluatesNewest (f : Float → Float) (t : Tolerance) :
    (scheme f t).EvaluatesNewest := by
  intro number s next h
  rcases step_eq_ok.1 h with ⟨-, hstuck⟩ | ⟨q, _, p, hq, rfl, hfin, hp, hmove⟩
  · cases hstuck
  cases hmove
  obtain ⟨rfl, -⟩ := evaluatePoint_eq_ok.1 hp
  show (step f number s).probes = _
  unfold step
  rw [hq]
  -- what is logged about the discriminant is no evaluation
  rw [Run.probes_bind_of_ok (Run.outcome_lift _), probes_discriminantRoot]
  refine (Run.probes_check hfin).trans ?_
  rw [Run.probes_bind_of_ok hp, probes_evaluatePoint]
  rfl

/-! ### Starts -/

/-- The methods from two points evaluate at both, and the second becomes the newest. -/
theorem TwoPoint.probes_start {f : Float → Float} {x₀ x₁ : Float} {s : TwoPoint}
    (h : (start f x₀ x₁).outcome = .ok s) :
    (start f x₀ x₁).probes = [⟨.value, x₀, f x₀⟩, s.newer.probe] := by
  obtain ⟨-, rfl, holder, hnewer⟩ := start_eq_ok.1 h
  unfold start at h ⊢
  split
  · rw [Run.probes_bind_of_ok (evaluatePoint_eq_ok.2 ⟨rfl, holder⟩),
      Run.probes_bind_of_ok (evaluatePoint_eq_ok.2 ⟨rfl, hnewer⟩), probes_evaluatePoint,
      probes_evaluatePoint]
    rfl
  · next hx =>
    rw [if_neg hx] at h
    cases h

/-- Muller's method evaluates at its three starts, and the last becomes the newest. -/
theorem Muller.probes_start {f : Float → Float} {x₀ x₁ x₂ : Float} {s : ThreePoint}
    (h : (start f x₀ x₁ x₂).outcome = .ok s) :
    (start f x₀ x₁ x₂).probes = [⟨.value, x₀, f x₀⟩, ⟨.value, x₁, f x₁⟩, s.newest.probe] := by
  obtain ⟨-, rfl, holdest, hmiddle, hnewest⟩ := start_eq_ok.1 h
  unfold start at h ⊢
  split
  · rw [Run.probes_bind_of_ok (evaluatePoint_eq_ok.2 ⟨rfl, holdest⟩),
      Run.probes_bind_of_ok (evaluatePoint_eq_ok.2 ⟨rfl, hmiddle⟩),
      Run.probes_bind_of_ok (evaluatePoint_eq_ok.2 ⟨rfl, hnewest⟩), probes_evaluatePoint,
      probes_evaluatePoint, probes_evaluatePoint]
    rfl
  · next hx =>
    rw [if_neg hx] at h
    cases h

/-! ### Reports -/

namespace Refinement

/-- The starts of the method but the newest one. -/
def olderStarts : Refinement → List Float
  | newton .. => []
  | secant x₀ _ => [x₀]
  | falsePosition x₀ _ => [x₀]
  | muller x₀ x₁ _ => [x₀, x₁]
  | chebyshev .. => []
  | multipoint .. => []

/-- The methods from several points evaluate at their starts and then at the newest point of
    every state. -/
theorem evaluatesNewest {m : Refinement}
    (hm : m.algorithm = .secant ∨ m.algorithm = .falsePosition ∨ m.algorithm = .muller)
    (f : Float → Float) (t : Tolerance) :
    (m.scheme f t).EvaluatesNewest ∧
      ∀ s₀, (m.start f).outcome = .ok s₀ →
        (m.start f).probes = m.olderStarts.map (fun x => ⟨.value, x, f x⟩) ++
          [((m.scheme f t).newest s₀).probe] := by
  cases m with
  | secant x₀ x₁ => exact ⟨Secant.evaluatesNewest f t, fun _ => TwoPoint.probes_start⟩
  | falsePosition x₀ x₁ =>
    exact ⟨FalsePosition.evaluatesNewest f t, fun _ => TwoPoint.probes_start⟩
  | muller x₀ x₁ x₂ => exact ⟨Muller.evaluatesNewest f t, fun _ => Muller.probes_start⟩
  | _ => rcases hm with hm | hm | hm <;> cases hm

/-- What the methods from several points offer when their iterations run out.  They evaluate the
    function at their older starts and then along a trail that begins with the newest start, and
    they offer the first best point of the trail.  So the residual of the root is at most that at
    any other point of the trail; it is the least of all exactly when no older start has a
    smaller one. -/
theorem root_isFirstBest_of_runsOut (m : Refinement) (f : Float → Float) (settings : Settings)
    (r : Report)
    (hm : m.algorithm = .secant ∨ m.algorithm = .falsePosition ∨ m.algorithm = .muller)
    (h : RunsOut (m.run f settings) r) :
    ∃ trail, (m.run f settings).probes =
        m.olderStarts.map (fun x => ⟨.value, x, f x⟩) ++ trail.map Point.probe ∧
      r.root.IsFirstBest trail ∧
      ((∀ p ∈ (m.run f settings).probes, r.root.residual ≤ p.result.abs) ↔
        ∀ x ∈ m.olderStarts, r.root.residual ≤ (f x).abs) := by
  rw [run_eq] at h ⊢
  obtain ⟨hprobes, hstart⟩ := evaluatesNewest hm f settings.tolerance
  obtain ⟨s₀, trail, hs₀, hbest, hrun⟩ := (m.isFaithful f settings.tolerance).exists_trail_of_runsOut
    hprobes (fun _ => newest_onGraph_of_start) h
  have hall : (refine (m.scheme f settings.tolerance) settings (m.start f)).probes =
      m.olderStarts.map (fun x => ⟨.value, x, f x⟩) ++
        (((m.scheme f settings.tolerance).newest s₀ :: trail).map Point.probe) := by
    rw [hrun, hstart s₀ hs₀, List.append_assoc]
    rfl
  refine ⟨_, hall, hbest, ?_⟩
  -- along the trail there is nothing to show
  have htrail : ∀ p ∈ (((m.scheme f settings.tolerance).newest s₀ :: trail).map Point.probe),
      r.root.residual ≤ p.result.abs :=
    List.forall_mem_map.2 hbest.least
  rw [hall, List.forall_mem_append, List.forall_mem_map]
  exact and_iff_left htrail

/-- Two steps of the secant method towards the root of two. -/
theorem root_isFirstBest_of_runsOut_root_two :
    ∃ r, RunsOut ((secant 1 2).run (fun x => x * x - 2)
        { iterations := some ⟨2, by decide⟩ }) r ∧
      ∃ trail, ((secant 1 2).run (fun x => x * x - 2) { iterations := some ⟨2, by decide⟩ }).probes =
          ⟨.value, 1, 1 * 1 - 2⟩ :: trail.map Point.probe ∧
        r.root.IsFirstBest trail := by
  obtain ⟨r, hout⟩ := exists_runsOut
    (x := (secant 1 2).run (fun x => x * x - 2) { iterations := some ⟨2, by decide⟩ })
    (by decide +kernel)
  obtain ⟨trail, hprobes, hbest, -⟩ :=
    root_isFirstBest_of_runsOut (secant 1 2) _ _ r (.inl rfl) hout
  exact ⟨r, hout, trail, hprobes, hbest⟩

/-- An older start may be better than what is offered.  The function `-1 + 9 x - 5 x ^ 3` has the
    value `-1` at zero.  From zero and one, and from zero, minus one and one, the first step of
    every method from several points goes to `1 / 4`, where the value is greater than one.  This
    is what they offer after one iteration.  False position has kept zero in its stencil. -/
theorem exists_better_start :
    ∃ (f : Float → Float) (iterations : Count),
      (∀ m ∈ [secant 0 1, falsePosition 0 1, muller 0 (-1) 1],
        ∃ r, RunsOut (m.run f { iterations := some iterations }) r ∧
          ∃ p ∈ (m.run f { iterations := some iterations }).probes,
            p.result.abs < r.root.residual) ∧
      ∃ r, RunsOut ((falsePosition 0 1).run f { iterations := some iterations }) r ∧
        ∃ x ∈ r.stencil.points, (f x).abs < r.root.residual := by
  refine ⟨fun x => (9 - 5 * x * x) * x - 1, ⟨1, Nat.one_pos⟩, fun m hm => ?_, ?_⟩
  · obtain ⟨r, hout, hbetter⟩ := exists_runsOut_of_any
      (x := m.run (fun x => (9 - 5 * x * x) * x - 1) { iterations := some ⟨1, Nat.one_pos⟩ })
      (p := fun r => (m.run (fun x => (9 - 5 * x * x) * x - 1)
        { iterations := some ⟨1, Nat.one_pos⟩ }).probes.any fun p => p.result.abs < r.root.residual)
      (by
        -- one run for each of the three methods
        simp only [List.mem_cons, List.not_mem_nil, or_false] at hm
        rcases hm with rfl | rfl | rfl <;> decide +kernel)
    obtain ⟨p, hp, hlt⟩ := List.any_eq_true.1 hbetter
    exact ⟨r, hout, p, hp, of_decide_eq_true hlt⟩
  · obtain ⟨r, hout, hbetter⟩ := exists_runsOut_of_any
      (x := (falsePosition 0 1).run (fun x => (9 - 5 * x * x) * x - 1)
        { iterations := some ⟨1, Nat.one_pos⟩ })
      (p := fun r =>
        r.stencil.points.any fun x => ((9 - 5 * x * x) * x - 1).abs < r.root.residual)
      (by decide +kernel)
    obtain ⟨x, hx, hlt⟩ := List.any_eq_true.1 hbetter
    exact ⟨r, hout, x, hx, of_decide_eq_true hlt⟩

end Refinement

end ScalarRoots
