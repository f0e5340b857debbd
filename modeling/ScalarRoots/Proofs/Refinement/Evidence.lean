import ScalarRoots.Proofs.Refinement.Checks
import ScalarRoots.Proofs.Refinement.Degenerate

/-!
# What a failure is evidence of

The errors of a refinement carry numbers: where it failed, and what was there.  Whoever knows the
functions can compute these numbers again and see the failure for themselves.  A result that is
not finite is that of the function named, at the location named.  A slope that is too small is
the slope at the location named, also where this is half a Newton step away from the iterate, and
dividing a residual of the run by it does overflow.  A parabola that leads nowhere has its base
point at an iterate, where the residual is not below the tolerance.

The argument goes along the list of checks with the list of what has been evaluated so far.

## Key results

- `Refinement.Evidence`: what each error says about the functions
- `Backed`: the first failure of a list of checks is backed by the evaluations up to there
- `Backed.iteration`: what every step backs is backed along an iteration
- `Refinement.backed_step`: the steps of the six methods
- `Refinement.evidence_of_run_error`: the errors of a refinement
-/

namespace ScalarRoots

/-! ## Evidence -/

namespace Refinement

/-- The function that the method evaluates for a quantity, if it uses that quantity at all. -/
def function? (f : Float → Float) : Refinement → Quantity → Option (Float → Float)
  | _, .value => some f
  | newton df _, .slope => some df
  | chebyshev df _ _, .slope => some df
  | multipoint df _ _, .slope => some df
  | chebyshev _ d2f _, .curvature => some d2f
  | _, _ => none

/-- The slope is that at `x`, and finite, but a residual of the run divided by it is not. -/
structure HasVanishingSlope (m : Refinement) (f : Float → Float) (ps : List Probe)
    (x slope : Float) : Prop where
  slope_eq : ∃ df, m.function? f .slope = some df ∧ slope = df x
  finite : slope.isFinite = true
  probed : ⟨.slope, x, slope⟩ ∈ ps
  overflows : ∃ z, ⟨.value, z, f z⟩ ∈ ps ∧ (f z).isFinite = true ∧ (f z / slope).isFinite = false

/-- What an error says about the functions, after the given evaluations. -/
def Evidence (m : Refinement) (f : Float → Float) (t : Tolerance) (ps : List Probe) :
    RefineError → Prop
  | .notFinite q x y =>
    (∃ g, m.function? f q = some g ∧ y = g x) ∧ y.isFinite = false ∧ ps.getLast? = some ⟨q, x, y⟩
  | .newtonStep x slope => m.HasVanishingSlope f ps x slope
  | .vanishingSlope x slope => m.HasVanishingSlope f ps x slope
  | .correctedStep x =>
    ∃ df d2f, m.function? f .slope = some df ∧ m.function? f .curvature = some d2f ∧
      (Chebyshev.target df d2f ⟨x, f x⟩).isFinite = false
  | .degenerateSecant x₀ x₁ =>
    (⟨.value, x₀, f x₀⟩ ∈ ps ∧ ⟨.value, x₁, f x₁⟩ ∈ ps) ∧
      TwoPoint.intercept ⟨⟨x₀, f x₀⟩, ⟨x₁, f x₁⟩⟩ = none
  | .parabolaStep x a b c =>
    (c = f x ∧ t.bound ≤ c.abs) ∧ ⟨.value, x, c⟩ ∈ ps ∧
      (∃ p q : Point Float, (p.probe ∈ ps ∧ q.probe ∈ ps) ∧
        Parabola.through p q ⟨x, c⟩ = ⟨a, b, c⟩) ∧
      (Muller.target x ⟨a, b, c⟩).isFinite = false
  | _ => False

end Refinement

/-! ## Backed failures -/

/-- If a check of the list is the first one to fail, what has been evaluated until then is
    evidence of its error. -/
def Backed (ev : List Probe → RefineError → Prop) : (ps : List Probe) → List Check → Prop
  | _, [] => True
  | ps, c :: cs =>
    if c.passes then Backed ev (ps ++ c.probe?.toList) cs else ev (ps ++ c.probe?.toList) c.error

namespace Backed

open Check (probes)

variable {ev : List Probe → RefineError → Prop} {ps : List Probe} {cs ds : List Check}

/-- Without checks there is no failure. -/
theorem nil : Backed ev ps [] := trivial

/-- A check of something that is not an evaluation. -/
theorem cons {c : Check} (hp : c.probe? = none) (hfail : c.passes = false → ev ps c.error)
    (hpass : c.passes = true → Backed ev ps cs) : Backed ev ps (c :: cs) := by
  unfold Backed
  rw [hp, Option.toList_none, List.append_nil]
  cases hc : c.passes with
  | true => exact hpass hc
  | false => exact hfail hc

/-- Checks that are backed can be followed by others that are backed if they have all passed. -/
theorem append (hcs : Backed ev ps cs)
    (hds : (∀ c ∈ cs, c.passes = true) → Backed ev (ps ++ probes cs) ds) :
    Backed ev ps (cs ++ ds) := by
  induction cs generalizing ps with
  | nil => simpa [probes] using hds
  | cons c cs ih =>
    rw [List.cons_append]
    unfold Backed at hcs ⊢
    -- the first check passes and is left behind, or it is the failure
    by_cases hc : c.passes = true
    · rw [if_pos hc] at hcs ⊢
      refine ih hcs fun hpass => ?_
      have hrest := hds (List.forall_mem_cons.2 ⟨hc, hpass⟩)
      have hprobes : ps ++ probes (c :: cs) = ps ++ c.probe?.toList ++ probes cs := by
        cases hp : c.probe? <;> simp [probes, hp]
      rwa [← hprobes]
    · rw [if_neg hc] at hcs ⊢
      exact hcs

/-- The failure that comes first is backed. -/
theorem failure {before after : List Check} {c : Check}
    (h : Backed ev ps (before ++ c :: after)) (hbefore : ∀ b ∈ before, b.passes = true)
    (hc : c.passes = false) : ev (ps ++ probes (before ++ [c])) c.error := by
  -- induction on the checks that pass, whose probes are collected
  induction before generalizing ps with
  | nil =>
    rw [List.nil_append, Backed, if_neg (by simp [hc])] at h
    cases hp : c.probe? <;> simp_all [probes]
  | cons b before ih =>
    obtain ⟨hb, hbefore⟩ := List.forall_mem_cons.1 hbefore
    rw [List.cons_append, Backed, if_pos hb] at h
    have hc := ih h hbefore
    cases hp : b.probe? <;> simp_all [probes]

/-- Along an iteration, failures are backed if the steps back theirs.  `P` is what is known of a
    state after some evaluations. -/
theorem iteration {σ : Type} {m : Scheme σ} {stepChecks : σ → List Check}
    {P : List Probe → σ → Prop}
    (hstep : ∀ {ps s}, P ps s → m.criterion? s = none → Backed ev ps (stepChecks s))
    (hnext : ∀ {ps number s next}, P ps s → (m.step number s).outcome = .ok (.moved next) →
      P (ps ++ probes (stepChecks s)) next)
    (left done : Nat) {s : σ} (hs : P ps s) : Backed ev ps (m.checks stepChecks left done s) := by
  -- Induction on the steps left, with what has been evaluated so far.
  induction left generalizing done ps s with
  | zero => exact nil
  | succ left ih =>
    unfold Scheme.checks
    cases hc : m.criterion? s with
    | some c => exact nil
    | none =>
      -- the checks of the step, and then those of the steps from the next state
      refine (hstep hs hc).append fun _ => ?_
      split
      · next next hmoved => exact ih (done + 1) (hnext hs hmoved)
      · exact nil

end Backed

/-! ## The six methods -/

namespace Refinement

open Check (probes)

variable {m : Refinement} {f : Float → Float} {t : Tolerance} {ps : List Probe}

/-- The points that a state of the method remembers. -/
def points : (m : Refinement) → m.State → List (Point Float)
  | newton .. => fun s : OnePoint => [s.current]
  | secant .. => fun s : TwoPoint => [s.older, s.newer]
  | falsePosition .. => fun s : TwoPoint => [s.older, s.newer]
  | muller .. => fun s : ThreePoint => [s.oldest, s.middle, s.newest]
  | chebyshev .. => fun s : OnePoint => [s.current]
  | multipoint .. => fun s : OnePoint => [s.current]

/-- The points that the state remembers come from the evaluations. -/
def Knows (m : Refinement) (f : Float → Float) (ps : List Probe) (s : m.State) : Prop :=
  ∀ p ∈ m.points s, p.OnGraph f ∧ p.probe ∈ ps

/-- A failing evaluation is its own evidence. -/
theorem backed_finite {q : Quantity} {g : Float → Float} {x : Float} {cs : List Check}
    (hg : m.function? f q = some g)
    (h : (g x).isFinite = true → Backed (m.Evidence f t) (ps ++ [⟨q, x, g x⟩]) cs) :
    Backed (m.Evidence f t) ps (.finite q g x :: cs) := by
  unfold Backed
  by_cases hx : (Check.finite q g x).passes = true
  · rw [if_pos hx]
    exact h hx
  · rw [if_neg hx]
    exact ⟨⟨g, hg, rfl⟩, Bool.eq_false_iff.2 hx, List.getLast?_append_cons ..⟩

/-- The residual of a point that is known. -/
theorem HasVanishingSlope.of_point {df : Float → Float} {x : Float} {p : Point Float}
    (hdf : m.function? f .slope = some df) (hslope : (df x).isFinite = true)
    (hprobe : ⟨.slope, x, df x⟩ ∈ ps) (hp : p.OnGraph f) (hmem : p.probe ∈ ps)
    (h : (p.y / df x).isFinite = false) : m.HasVanishingSlope f ps x (df x) := by
  have hy := hp.value_eq
  unfold Point.probe at hmem
  rw [hy] at hmem h
  exact ⟨⟨df, hdf, rfl⟩, hslope, hprobe, p.x, hmem, hy ▸ hp.finite, h⟩

/-! ### Steps -/

/-- The checks of a Newton step, in a method that evaluates the slope. -/
theorem backed_newtonChecks {df : Float → Float} {p : Point Float}
    (hdf : m.function? f .slope = some df) (hp : p.OnGraph f) (hmem : p.probe ∈ ps) :
    Backed (m.Evidence f t) ps (newtonChecks df p) := by
  refine backed_finite hdf fun hslope => .cons rfl (fun h => ?_) fun _ => .nil
  -- the quotient fails, so the slope has passed and has been evaluated
  exact .of_point hdf hslope (by simp) hp (List.mem_append_left _ hmem) h

/-- A corrected step that leads nowhere is told by the derivatives at the iterate. -/
theorem backed_step_chebyshev {df d2f : Float → Float} {x₀ : Float} {s : OnePoint}
    (hs : (chebyshev df d2f x₀).Knows f ps s) :
    Backed ((chebyshev df d2f x₀).Evidence f t) ps (Chebyshev.checks f df d2f s) := by
  obtain ⟨hcurrent, hmem⟩ := hs s.current List.mem_cons_self
  refine (backed_newtonChecks rfl hcurrent hmem).append fun _ => ?_
  refine backed_finite rfl fun _ => .cons rfl (fun h => ?_) fun _ => backed_finite rfl fun _ => .nil
  refine ⟨df, d2f, rfl, rfl, ?_⟩
  -- the correction is made of the value at the iterate
  rw [← hcurrent.value_eq]
  exact h

/-- The residual is that at the iterate, or by the second rule that at the predicted point.  The
    slope is that at the iterate, or by the first rule that at half a step. -/
theorem backed_step_multipoint {df : Float → Float} {rule : MultipointRule} {x₀ : Float}
    {s : OnePoint} (hs : (multipoint df rule x₀).Knows f ps s) :
    Backed ((multipoint df rule x₀).Evidence f t) ps (Multipoint.checks f df rule s) := by
  obtain ⟨hcurrent, hmem⟩ := hs s.current List.mem_cons_self
  unfold Multipoint.checks Multipoint.locationChecks
  refine backed_finite rfl fun hslope => .cons rfl (fun h => ?_) fun _ => ?_
  · exact .of_point rfl hslope (by simp) hcurrent (List.mem_append_left _ hmem) h
  -- what is divided by the slope next is the value again, or that at the predicted point
  cases rule with
  | midpointDerivative =>
    refine backed_finite rfl fun hhalf => .cons rfl (fun h => ?_) fun _ => ?_
    · exact .of_point rfl hhalf (by simp) hcurrent (by simp [hmem]) h
    · exact backed_finite rfl fun _ => .nil
  | predictorCorrector =>
    refine backed_finite rfl fun hpredicted => .cons rfl (fun h => ?_) fun _ => ?_
    · exact .of_point (p := ⟨Multipoint.midway df .predictorCorrector s.current, _⟩) rfl hslope
        (by simp) ⟨rfl, hpredicted⟩ (List.mem_append_right _ (List.mem_singleton_self _)) h
    · exact backed_finite rfl fun _ => .nil

/-- In both methods from two points, the points of a degenerate secant are those remembered. -/
theorem backed_step_twoPoint {s : TwoPoint}
    (hs : ∀ p ∈ [s.older, s.newer], p.OnGraph f ∧ p.probe ∈ ps) :
    Backed (m.Evidence f t) ps (s.checks f) := by
  obtain ⟨⟨holder, hmem⟩, hnewer, hmem'⟩ : (s.older.OnGraph f ∧ s.older.probe ∈ ps) ∧
      s.newer.OnGraph f ∧ s.newer.probe ∈ ps := by simpa using hs
  -- either check fails when there is no intercept
  have hevidence (h : s.intercept = none) :
      m.Evidence f t ps (.degenerateSecant s.older.x s.newer.x) := by
    unfold Point.probe at hmem hmem'
    rw [holder.value_eq] at hmem
    rw [hnewer.value_eq] at hmem'
    refine ⟨⟨hmem, hmem'⟩, ?_⟩
    rw [← holder.value_eq, ← hnewer.value_eq]
    exact h
  refine .cons rfl (fun h => hevidence ?_) fun _ => .cons rfl (fun h => hevidence ?_) fun _ =>
    backed_finite (by cases m <;> rfl) fun _ => .nil
  · exact TwoPoint.intercept_eq_none_iff.2 (.inl (by simpa [Check.passes] using h))
  · exact TwoPoint.intercept_eq_none_iff.2 (.inr h)

/-- The parabola of a step is the one through its three points. -/
theorem eq_through_of_parabola? {s : ThreePoint} {q : Parabola Float}
    (h : Muller.parabola? s = some q) : q = Parabola.through s.oldest s.middle s.newest := by
  simp only [Muller.parabola?] at h
  split at h
  · cases h
  · cases h
    rfl

/-- The parabola is the one through the points remembered, and the iteration would not go on if
    the residual were below the tolerance. -/
theorem backed_step_muller {x₀ x₁ x₂ : Float} {s : ThreePoint}
    (hs : (muller x₀ x₁ x₂).Knows f ps s) (hgo : Muller.criterion? t s = none) :
    Backed ((muller x₀ x₁ x₂).Evidence f t) ps (Muller.checks f s) := by
  unfold Muller.checks
  cases hq : Muller.parabola? s with
  | none => exact .nil
  | some q =>
    obtain rfl := eq_through_of_parabola? hq
    have hpoints : (s.oldest.OnGraph f ∧ s.oldest.probe ∈ ps) ∧
        (s.middle.OnGraph f ∧ s.middle.probe ∈ ps) ∧ s.newest.OnGraph f ∧ s.newest.probe ∈ ps := by
      simpa [Knows, points] using hs
    obtain ⟨⟨-, holdest⟩, ⟨-, hmiddle⟩, hnewest, hmem⟩ := hpoints
    -- the tolerance is tested before the step
    have hlarge : ¬ s.newest.residual < t.bound := fun hlt => by
      rw [Muller.criterion?_eq_some.2 ⟨rfl, hlt⟩] at hgo
      cases hgo
    refine .cons rfl (fun h => ?_) fun _ => backed_finite rfl fun _ => .nil
    exact ⟨⟨hnewest.value_eq, hnewest.le_residual hlarge⟩, hmem,
      ⟨s.oldest, s.middle, ⟨holdest, hmiddle⟩, rfl⟩, h⟩

/-- What a state remembers is evidence of the failures of the step from there. -/
theorem backed_step {s : m.State} (hs : m.Knows f ps s)
    (hgo : (m.scheme f t).criterion? s = none) :
    Backed (m.Evidence f t) ps (m.stepChecks f s) := by
  cases m with
  | newton df x₀ =>
    obtain ⟨hcurrent, hmem⟩ := hs _ List.mem_cons_self
    exact (backed_newtonChecks rfl hcurrent hmem).append fun _ => backed_finite rfl fun _ => .nil
  | secant x₀ x₁ => exact backed_step_twoPoint hs
  | falsePosition x₀ x₁ => exact backed_step_twoPoint hs
  | muller x₀ x₁ x₂ => exact backed_step_muller hs hgo
  | chebyshev df d2f x₀ => exact backed_step_chebyshev hs
  | multipoint df rule x₀ => exact backed_step_multipoint hs

/-! ### What is known -/

/-- A start evaluates at all of its points. -/
theorem knows_of_start {s : m.State} (h : (m.start f).outcome = .ok s) :
    m.Knows f (probes (m.startChecks f)) s := by
  cases m with
  | newton df x₀ =>
    obtain ⟨-, rfl, hgraph⟩ := OnePoint.start_eq_ok.1 h
    exact List.forall_mem_singleton.2 ⟨hgraph, List.mem_cons_self⟩
  | chebyshev df d2f x₀ =>
    obtain ⟨-, rfl, hgraph⟩ := OnePoint.start_eq_ok.1 h
    exact List.forall_mem_singleton.2 ⟨hgraph, List.mem_cons_self⟩
  | multipoint df rule x₀ =>
    obtain ⟨-, rfl, hgraph⟩ := OnePoint.start_eq_ok.1 h
    exact List.forall_mem_singleton.2 ⟨hgraph, List.mem_cons_self⟩
  | secant x₀ x₁ =>
    obtain ⟨-, rfl, holder, hnewer⟩ := TwoPoint.start_eq_ok.1 h
    simp [Knows, points, startChecks, probes, Check.probe?, Point.probe, holder, hnewer]
  | falsePosition x₀ x₁ =>
    obtain ⟨-, rfl, holder, hnewer⟩ := TwoPoint.start_eq_ok.1 h
    simp [Knows, points, startChecks, probes, Check.probe?, Point.probe, holder, hnewer]
  | muller x₀ x₁ x₂ =>
    obtain ⟨-, rfl, holdest, hmiddle, hnewest⟩ := Muller.start_eq_ok.1 h
    simp [Knows, points, startChecks, probes, Check.probe?, Point.probe, holdest, hmiddle, hnewest]

/-- A point that a check has led to is known from then on. -/
theorem mem_probes_of_evaluatePoint {x : Float} {p : Point Float} {cs : List Check}
    (h : (evaluatePoint f x).outcome = .ok p) (hmem : .finite .value f x ∈ cs) :
    p.OnGraph f ∧ p.probe ∈ probes cs := by
  obtain ⟨rfl, hgraph⟩ := evaluatePoint_eq_ok.1 h
  exact ⟨hgraph, List.mem_filterMap.2 ⟨_, hmem, rfl⟩⟩

/-- So is the point above an intercept. -/
theorem mem_probes_of_interceptPoint {s : TwoPoint} {p : Point Float}
    (h : (s.interceptPoint f).outcome = .ok p) : p.OnGraph f ∧ p.probe ∈ probes (s.checks f) := by
  obtain ⟨x, hx, hp⟩ := TwoPoint.interceptPoint_eq_ok.1 h
  obtain ⟨-, -, rfl⟩ := TwoPoint.intercept_eq_some hx
  exact mem_probes_of_evaluatePoint hp (by simp [TwoPoint.checks, TwoPoint.target])

/-- A step that moves on evaluates at the point that it moves to.  Whatever else the next state
    remembers, it remembers from before. -/
theorem mem_points_of_step {number : Nat} {s next : m.State} {p : Point Float}
    (h : ((m.scheme f t).step number s).outcome = .ok (.moved next)) (hp : p ∈ m.points next) :
    p ∈ m.points s ∨ p.OnGraph f ∧ p.probe ∈ probes (m.stepChecks f s) := by
  -- By the method: the new point is where its last check has been.
  cases m with
  | newton df x₀ =>
    obtain ⟨newton, q, hnewton, hq, hmove⟩ := Newton.step_eq_ok.1 h
    obtain ⟨rfl, -⟩ := newtonStep_eq_ok.1 hnewton
    cases hmove
    obtain rfl := List.mem_singleton.1 hp
    exact .inr (mem_probes_of_evaluatePoint hq (List.mem_append_right _ List.mem_cons_self))
  | chebyshev df d2f x₀ =>
    obtain ⟨newton, curvature, q, hnewton, hcurvature, -, hq, hmove⟩ := Chebyshev.step_eq_ok.1 h
    obtain ⟨rfl, -⟩ := newtonStep_eq_ok.1 hnewton
    obtain ⟨rfl, -⟩ := evaluate_eq_ok.1 hcurvature
    split at hmove <;> cases hmove
    obtain rfl := List.mem_singleton.1 hp
    have htarget : .finite .value f (Chebyshev.target df d2f s.current) ∈
        Chebyshev.checks f df d2f s := by simp [Chebyshev.checks]
    exact .inr (mem_probes_of_evaluatePoint hq htarget)
  | multipoint df rule x₀ =>
    obtain ⟨x, q, hx, hq, hmove⟩ := Multipoint.step_eq_ok.1 h
    obtain rfl := Multipoint.eq_target_of_nextLocation hx
    cases hmove
    obtain rfl := List.mem_singleton.1 hp
    exact .inr (mem_probes_of_evaluatePoint hq (List.mem_append_right _ List.mem_cons_self))
  | secant x₀ x₁ =>
    obtain ⟨q, hq, hmove⟩ := Secant.step_eq_ok.1 h
    cases hmove
    rcases List.mem_pair.1 hp with rfl | rfl
    · exact .inl (List.mem_cons_of_mem _ List.mem_cons_self)
    · exact .inr (mem_probes_of_interceptPoint hq)
  | falsePosition x₀ x₁ =>
    obtain ⟨q, hq, hmove⟩ := FalsePosition.step_eq_ok.1 h
    cases hmove
    rcases List.mem_pair.1 hp with rfl | rfl
    · -- either of the two points may be kept
      rcases FalsePosition.older_advance s q with hold | hold <;> rw [hold]
      · exact .inl (List.mem_cons_of_mem _ List.mem_cons_self)
      · exact .inl List.mem_cons_self
    · have hnew := mem_probes_of_interceptPoint hq
      rw [← FalsePosition.newer_advance s q] at hnew
      exact .inr hnew
  | muller x₀ x₁ x₂ =>
    rcases Muller.step_eq_ok.1 h with ⟨-, hstuck⟩ | ⟨q, root, r, hq, rfl, -, hr, hmove⟩
    · cases hstuck
    cases hmove
    have htarget : .finite .value f (Muller.target s.newest.x q) ∈ Muller.checks f s := by
      simp [Muller.checks, hq]
    have hnew := mem_probes_of_evaluatePoint hr htarget
    simp only [points, List.mem_cons, List.not_mem_nil, or_false] at hp ⊢
    rcases hp with rfl | rfl | rfl
    · exact .inl (.inr (.inl rfl))
    · exact .inl (.inr (.inr rfl))
    · exact .inr hnew

/-- So the next state knows all of its points. -/
theorem Knows.step {number : Nat} {s next : m.State} (hs : m.Knows f ps s)
    (h : ((m.scheme f t).step number s).outcome = .ok (.moved next)) :
    m.Knows f (ps ++ probes (m.stepChecks f s)) next := by
  intro p hp
  rcases mem_points_of_step h hp with hold | ⟨hgraph, hnew⟩
  · exact ⟨(hs p hold).1, List.mem_append_left _ (hs p hold).2⟩
  · exact ⟨hgraph, List.mem_append_right _ hnew⟩

/-! ### Runs -/

/-- The checks of a start are evaluations. -/
theorem backed_startChecks (m : Refinement) (f : Float → Float) (t : Tolerance) (ps : List Probe) :
    Backed (m.Evidence f t) ps (m.startChecks f) := by
  cases m with
  | newton df x₀ => exact backed_finite rfl fun _ => .nil
  | chebyshev df d2f x₀ => exact backed_finite rfl fun _ => .nil
  | multipoint df rule x₀ => exact backed_finite rfl fun _ => .nil
  | secant x₀ x₁ => exact backed_finite rfl fun _ => backed_finite rfl fun _ => .nil
  | falsePosition x₀ x₁ => exact backed_finite rfl fun _ => backed_finite rfl fun _ => .nil
  | muller x₀ x₁ x₂ =>
    exact backed_finite rfl fun _ => backed_finite rfl fun _ => backed_finite rfl fun _ => .nil

/-- The first failure of a run is backed by what the run has evaluated until then. -/
theorem backed_checks (m : Refinement) (f : Float → Float) (settings : Settings) :
    Backed (m.Evidence f settings.tolerance) [] (m.checks f settings) := by
  -- the start backs its failures, and knows its points if it succeeds
  refine (m.backed_startChecks f _ []).append fun _ => ?_
  cases hstart : (m.start f).outcome with
  | error e => exact .nil
  | ok s =>
    exact Backed.iteration (P := m.Knows f) backed_step Knows.step _ _ (knows_of_start hstart)

/-- Errors are reproducible evidence.  A refinement from an accepted start makes its checks one
    after the other: the function and its derivatives are finite where they are evaluated, and
    the quotients and the locations that a step needs are finite.  If the refinement fails, its
    error is that of the first check in this order that does not pass, and it has evaluated up
    to there and no further.  What the error says can be computed again: a result that is not
    finite is that of the function at the location named; the slope of a vanishing slope is that
    at the location named, and finite, but a residual of the run divided by it is not; and a
    parabola without a step has its base point at an iterate, whose residual is not below the
    tolerance. -/
theorem evidence_of_run_error (m : Refinement) (f : Float → Float) (settings : Settings)
    (e : RefineError) (hstart : m.CanStart) (h : (m.run f settings).outcome = .error e) :
    (∃ before check after, m.checks f settings = before ++ check :: after ∧
      (∀ b ∈ before, b.passes = true) ∧ check.passes = false ∧ check.error = e ∧
      (m.run f settings).probes = Check.probes (before ++ [check])) ∧
    m.Evidence f settings.tolerance (m.run f settings).probes e := by
  obtain ⟨before, check, after, hchecks, hbefore, hfails, rfl, hprobes⟩ :=
    (makes_run hstart f settings).exists_failure h
  refine ⟨⟨before, check, after, hchecks, hbefore, hfails, rfl, hprobes⟩, ?_⟩
  -- the first failure is backed by the probes up to there
  have hbacked := m.backed_checks f settings
  rw [hchecks] at hbacked
  rw [hprobes]
  exact hbacked.failure hbefore hfails

/-- The derivative of `x * x - x + 1` vanishes at one half.  From one, half a Newton step leads
    there, and it is the location that the multipoint iteration names, not that of the iterate. -/
theorem evidence_of_run_error_half :
    ∃ m f, m = multipoint (fun x => 2 * x - 1) .midpointDerivative 1 ∧
      f = (fun x : Float => x * x - x + 1) ∧ m.CanStart ∧
      (m.run f {}).outcome = .error (.vanishingSlope 0.5 0) ∧
      (∃ before check after, m.checks f {} = before ++ check :: after ∧
        (∀ b ∈ before, b.passes = true) ∧ check.passes = false ∧
        check.error = .vanishingSlope 0.5 0 ∧
        (m.run f {}).probes = Check.probes (before ++ [check])) ∧
      m.HasVanishingSlope f (m.run f {}).probes 0.5 0 := by
  have hrun : ((multipoint (fun x => 2 * x - 1) .midpointDerivative 1).run
      (fun x => x * x - x + 1) {}).outcome = .error (.vanishingSlope 0.5 0) :=
    outcome_eq_error_of_cause (by decide +kernel)
  have hstart : (multipoint (fun x => 2 * x - 1) .midpointDerivative 1).CanStart :=
    show (1 : Float).isFinite = true by decide +kernel
  obtain ⟨hfirst, hevidence⟩ := evidence_of_run_error _ _ _ _ hstart hrun
  exact ⟨_, _, rfl, rfl, hstart, hrun, hfirst, hevidence⟩

end Refinement

end ScalarRoots
