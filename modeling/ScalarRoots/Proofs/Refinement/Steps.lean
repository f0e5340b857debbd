import ScalarRoots.Refinement.Chebyshev
import ScalarRoots.Refinement.FalsePosition
import ScalarRoots.Refinement.Muller
import ScalarRoots.Refinement.Multipoint
import ScalarRoots.Refinement.Newton
import ScalarRoots.Refinement.Secant

/-!
# What a step can do

For every method, what its start and its step lead to when they do not fail, and what its
tests look at.  Whatever holds along a refinement follows from these descriptions, without
another look at how a step is computed.

## Key results

- `Point.OnGraph`: a point at which the target function was evaluated
- `OnePoint.start_eq_ok` / `TwoPoint.start_eq_ok` / `Muller.start_eq_ok`: the starts
- `OnePoint.criterion?_eq_some` and its namesakes: the tests
- `Newton.step_eq_ok` and its namesakes for the other methods: the steps
-/

namespace ScalarRoots

/-! ## Evaluated points -/

/-- A point at which `f` was evaluated. -/
structure Point.OnGraph (f : Float → Float) (p : Point Float) : Prop where
  value_eq : p.y = f p.x
  finite : p.y.isFinite = true

/-- An evaluation gives the value, where the function is finite. -/
theorem evaluate_eq_ok {q : Quantity} {g : Float → Float} {x y : Float} :
    (evaluate q g x).outcome = .ok y ↔ y = g x ∧ (g x).isFinite = true := by
  rw [outcome_evaluate]
  constructor
  · intro h
    split at h
    · next hfin =>
      cases h
      exact ⟨rfl, hfin⟩
    · cases h
  · rintro ⟨rfl, hfin⟩
    exact if_pos hfin

/-- An evaluation gives the point of the graph, where the function is finite. -/
theorem evaluatePoint_eq_ok {f : Float → Float} {x : Float} {p : Point Float} :
    (evaluatePoint f x).outcome = .ok p ↔ p = ⟨x, f x⟩ ∧ p.OnGraph f := by
  rw [outcome_evaluatePoint]
  constructor
  · intro h
    split at h
    · next hfin =>
      cases h
      exact ⟨rfl, rfl, hfin⟩
    · cases h
  · intro h
    obtain ⟨rfl, hp⟩ := h
    exact if_pos hp.finite

/-- It fails where the function is not finite, and tells so. -/
theorem evaluatePoint_eq_error {f : Float → Float} {x : Float} {e : RefineError} :
    (evaluatePoint f x).outcome = .error e ↔
      e = .notFinite .value x (f x) ∧ (f x).isFinite = false := by
  rw [outcome_evaluatePoint]
  cases (f x).isFinite <;> simp [eq_comm]

/-- An evaluation is recorded, whatever comes out. -/
theorem probes_evaluate (q : Quantity) (g : Float → Float) (x : Float) :
    (evaluate q g x).probes = [⟨q, x, g x⟩] := by
  unfold Run.probes
  rw [transcript_evaluate]
  rfl

/-- So is the evaluation of a point. -/
theorem probes_evaluatePoint (f : Float → Float) (x : Float) :
    (evaluatePoint f x).probes = [⟨.value, x, f x⟩] := by
  unfold Run.probes
  rw [transcript_evaluatePoint]
  rfl

/-! ## Starts -/

/-- One finite location is a start where the function is finite. -/
theorem OnePoint.start_eq_ok {f : Float → Float} {x₀ : Float} {s : OnePoint} :
    (start f x₀).outcome = .ok s ↔
      x₀.isFinite = true ∧ s = ⟨x₀, ⟨x₀, f x₀⟩⟩ ∧ s.current.OnGraph f := by
  unfold start
  split
  · next hx =>
    -- behind the check there is one evaluation
    rw [Run.outcome_bind_eq_ok]
    constructor
    · intro h
      obtain ⟨p, hp, hs⟩ := h
      obtain ⟨rfl, hgraph⟩ := evaluatePoint_eq_ok.1 hp
      cases hs
      exact ⟨hx, rfl, hgraph⟩
    · intro h
      obtain ⟨-, rfl, hgraph⟩ := h
      exact ⟨_, evaluatePoint_eq_ok.2 ⟨rfl, hgraph⟩, rfl⟩
  · next hx => exact ⟨nofun, fun h => absurd h.1 hx⟩

/-- Two distinct finite locations are a start where the function is finite at both. -/
theorem TwoPoint.start_eq_ok {f : Float → Float} {x₀ x₁ : Float} {s : TwoPoint} :
    (start f x₀ x₁).outcome = .ok s ↔
      (x₀.isFinite = true ∧ x₁.isFinite = true ∧ (x₀ == x₁) = false) ∧
        s = ⟨⟨x₀, f x₀⟩, ⟨x₁, f x₁⟩⟩ ∧ s.older.OnGraph f ∧ s.newer.OnGraph f := by
  unfold start
  -- the check is a Boolean, the statement speaks of its three parts
  have hcond : (x₀.isFinite && x₁.isFinite && x₀ != x₁) = true ↔
      x₀.isFinite = true ∧ x₁.isFinite = true ∧ (x₀ == x₁) = false := by
    simp [bne, and_assoc]
  split
  · next hx =>
    simp only [Run.outcome_bind_eq_ok]
    constructor
    · intro h
      obtain ⟨p, hp, q, hq, hs⟩ := h
      obtain ⟨rfl, hp'⟩ := evaluatePoint_eq_ok.1 hp
      obtain ⟨rfl, hq'⟩ := evaluatePoint_eq_ok.1 hq
      cases hs
      exact ⟨hcond.1 hx, rfl, hp', hq'⟩
    · intro h
      obtain ⟨-, rfl, hp, hq⟩ := h
      exact ⟨_, evaluatePoint_eq_ok.2 ⟨rfl, hp⟩, _, evaluatePoint_eq_ok.2 ⟨rfl, hq⟩, rfl⟩
  · next hx => exact ⟨nofun, fun h => absurd (hcond.2 h.1) hx⟩

/-- Three finite locations are a start where the function is finite at all of them. -/
theorem Muller.start_eq_ok {f : Float → Float} {x₀ x₁ x₂ : Float} {s : ThreePoint} :
    (start f x₀ x₁ x₂).outcome = .ok s ↔
      (x₀.isFinite = true ∧ x₁.isFinite = true ∧ x₂.isFinite = true) ∧
        s = ⟨⟨x₀, f x₀⟩, ⟨x₁, f x₁⟩, ⟨x₂, f x₂⟩⟩ ∧
        s.oldest.OnGraph f ∧ s.middle.OnGraph f ∧ s.newest.OnGraph f := by
  unfold start
  -- as for two locations
  have hcond : (x₀.isFinite && x₁.isFinite && x₂.isFinite) = true ↔
      x₀.isFinite = true ∧ x₁.isFinite = true ∧ x₂.isFinite = true := by
    simp [and_assoc]
  split
  · next hx =>
    simp only [Run.outcome_bind_eq_ok]
    constructor
    · intro h
      obtain ⟨p, hp, q, hq, r, hr, hs⟩ := h
      obtain ⟨rfl, hp'⟩ := evaluatePoint_eq_ok.1 hp
      obtain ⟨rfl, hq'⟩ := evaluatePoint_eq_ok.1 hq
      obtain ⟨rfl, hr'⟩ := evaluatePoint_eq_ok.1 hr
      cases hs
      exact ⟨hcond.1 hx, rfl, hp', hq', hr'⟩
    · intro h
      obtain ⟨-, rfl, hp, hq, hr⟩ := h
      exact ⟨_, evaluatePoint_eq_ok.2 ⟨rfl, hp⟩, _, evaluatePoint_eq_ok.2 ⟨rfl, hq⟩, _,
        evaluatePoint_eq_ok.2 ⟨rfl, hr⟩, rfl⟩
  · next hx => exact ⟨nofun, fun h => absurd (hcond.2 h.1) hx⟩

/-! ## Tests -/

/-- An iteration from one point ends by its residual alone. -/
theorem OnePoint.criterion?_eq_some {t : Tolerance} {s : OnePoint} {c : Criterion} :
    s.criterion? t = some c ↔ c = .residual ∧ s.current.residual < t.bound := by
  unfold criterion? Point.residual
  rw [← Tolerance.meets_eq_true]
  cases t.meets s.current.y <;> simp [eq_comm]

/-- An iteration from three points ends by its residual alone as well. -/
theorem Muller.criterion?_eq_some {t : Tolerance} {s : ThreePoint} {c : Criterion} :
    criterion? t s = some c ↔ c = .residual ∧ s.newest.residual < t.bound := by
  unfold criterion? Point.residual
  rw [← Tolerance.meets_eq_true]
  cases t.meets s.newest.y <;> simp [eq_comm]

/-- An iteration from two points looks at its residual first. -/
theorem TwoPoint.criterion?_eq_residual {t : Tolerance} {s : TwoPoint} :
    s.criterion? t = some .residual ↔ s.newer.residual < t.bound := by
  unfold criterion? Point.residual
  rw [← Tolerance.meets_eq_true]
  -- four combinations of the two tests
  cases t.meets s.newer.y <;> cases t.meets s.gap <;> simp

/-- Only where the residual is not small does it look at the step. -/
theorem TwoPoint.criterion?_eq_step {t : Tolerance} {s : TwoPoint} :
    s.criterion? t = some .step ↔ ¬ s.newer.residual < t.bound ∧ s.gap.abs < t.bound := by
  unfold criterion? Point.residual
  simp only [← Tolerance.meets_eq_true]
  cases t.meets s.newer.y <;> cases t.meets s.gap <;> simp

/-! ## Steps from one point -/

/-- A Newton step divides by the slope; both slope and quotient are finite. -/
theorem newtonStep_eq_ok {df : Float → Float} {p : Point Float} {newton : NewtonStep} :
    (newtonStep df p).outcome = .ok newton ↔
      newton = ⟨df p.x, p.y / df p.x⟩ ∧
        newton.slope.isFinite = true ∧ newton.step.isFinite = true := by
  rw [outcome_newtonStep]
  constructor
  · intro h
    -- two checks, of the slope and of the quotient
    split at h
    · next hslope =>
      split at h
      · next hstep =>
        cases h
        exact ⟨rfl, hslope, hstep⟩
      · cases h
    · cases h
  · intro h
    obtain ⟨rfl, hslope, hstep⟩ := h
    rw [if_pos hslope, if_pos hstep]

/-- Newton's method goes where the Newton step leads. -/
theorem Newton.step_eq_ok {f df : Float → Float} {number : Nat} {s : OnePoint}
    {advance : Advance OnePoint} :
    (step f df number s).outcome = .ok advance ↔
      ∃ newton next, (newtonStep df s.current).outcome = .ok newton ∧
        (evaluatePoint f (s.current.x - newton.step)).outcome = .ok next ∧
        advance = .moved (s.moveTo next) := by
  -- a step is a chain of parts that all have to succeed; the log record always does
  simp only [step, Run.outcome_bind_eq_ok, Run.outcome_lift_bind, Run.outcome_pure]
  constructor
  · intro h
    obtain ⟨newton, hnewton, next, hnext, hadvance⟩ := h
    exact ⟨newton, next, hnewton, hnext, (Except.ok.inj hadvance).symm⟩
  · intro h
    obtain ⟨newton, next, hnewton, hnext, rfl⟩ := h
    exact ⟨newton, hnewton, next, hnext, rfl⟩

/-- Chebyshev's method goes where the corrected Newton step leads, and is done there when
    the Newton step was small. -/
theorem Chebyshev.step_eq_ok {f df d2f : Float → Float} {t : Tolerance} {number : Nat}
    {s : OnePoint} {advance : Advance OnePoint} :
    (step f df d2f t number s).outcome = .ok advance ↔
      ∃ newton curvature next, (newtonStep df s.current).outcome = .ok newton ∧
        (evaluate .curvature d2f s.current.x).outcome = .ok curvature ∧
        (corrected s.current newton curvature).isFinite = true ∧
        (evaluatePoint f (corrected s.current newton curvature)).outcome = .ok next ∧
        advance = if t.meets newton.step then .accepted (s.moveTo next)
          else .moved (s.moveTo next) := by
  simp only [step, Run.outcome_bind_eq_ok, Run.outcome_check_eq_ok]
  constructor
  · intro h
    obtain ⟨newton, hnewton, curvature, hcurvature, hfin, next, hnext, hadvance⟩ := h
    refine ⟨newton, curvature, next, hnewton, hcurvature, hfin, hnext, ?_⟩
    -- the point is the same in both branches, but not what is done with it
    split at hadvance
    · next hsmall =>
      cases hadvance
      rw [if_pos hsmall]
    · next hlarge =>
      cases hadvance
      rw [if_neg hlarge]
  · intro h
    obtain ⟨newton, curvature, next, hnewton, hcurvature, hfin, hnext, rfl⟩ := h
    refine ⟨newton, hnewton, curvature, hcurvature, hfin, next, hnext, ?_⟩
    split <;> rfl

/-- The multipoint iteration goes where its rule leads. -/
theorem Multipoint.step_eq_ok {f df : Float → Float} {rule : MultipointRule} {number : Nat}
    {s : OnePoint} {advance : Advance OnePoint} :
    (step f df rule number s).outcome = .ok advance ↔
      ∃ x next, (nextLocation f df rule s.current).outcome = .ok x ∧
        (evaluatePoint f x).outcome = .ok next ∧ advance = .moved (s.moveTo next) := by
  simp only [step, Run.outcome_bind_eq_ok, Run.outcome_lift_bind, Run.outcome_pure]
  constructor
  · intro h
    obtain ⟨x, hx, next, hnext, hadvance⟩ := h
    exact ⟨x, next, hx, hnext, (Except.ok.inj hadvance).symm⟩
  · intro h
    obtain ⟨x, next, hx, hnext, rfl⟩ := h
    exact ⟨x, hx, next, hnext, rfl⟩

/-! ## Steps from two points -/

/-- The point above the intercept is there when the intercept is. -/
theorem TwoPoint.interceptPoint_eq_ok {f : Float → Float} {s : TwoPoint} {p : Point Float} :
    (s.interceptPoint f).outcome = .ok p ↔
      ∃ x, s.intercept = some x ∧ (evaluatePoint f x).outcome = .ok p := by
  unfold interceptPoint
  cases s.intercept with
  | some x => simp
  | none => exact ⟨nofun, fun ⟨_, h, _⟩ => nomatch h⟩

/-- The point above the intercept is one of the graph. -/
theorem TwoPoint.onGraph_of_interceptPoint {f : Float → Float} {s : TwoPoint}
    {p : Point Float} (h : (s.interceptPoint f).outcome = .ok p) : p.OnGraph f := by
  obtain ⟨x, -, hx⟩ := interceptPoint_eq_ok.1 h
  exact (evaluatePoint_eq_ok.1 hx).2

/-- The secant method goes to the intercept and forgets the older point. -/
theorem Secant.step_eq_ok {f : Float → Float} {number : Nat} {s : TwoPoint}
    {advance : Advance TwoPoint} :
    (step f number s).outcome = .ok advance ↔
      ∃ next, (s.interceptPoint f).outcome = .ok next ∧ advance = .moved ⟨s.newer, next⟩ := by
  simp only [step, Run.outcome_bind_eq_ok, Run.outcome_lift_bind, Run.outcome_pure]
  constructor
  · intro h
    obtain ⟨next, hnext, hadvance⟩ := h
    exact ⟨next, hnext, (Except.ok.inj hadvance).symm⟩
  · intro h
    obtain ⟨next, hnext, rfl⟩ := h
    exact ⟨next, hnext, rfl⟩

/-- The method of false position goes to the intercept and narrows the bracket to it. -/
theorem FalsePosition.step_eq_ok {f : Float → Float} {number : Nat} {s : TwoPoint}
    {move : Advance TwoPoint} :
    (step f number s).outcome = .ok move ↔
      ∃ next, (s.interceptPoint f).outcome = .ok next ∧ move = .moved (advance s next) := by
  simp only [step, Run.outcome_bind_eq_ok, Run.outcome_lift_bind, Run.outcome_pure]
  constructor
  · intro h
    obtain ⟨next, hnext, hmove⟩ := h
    exact ⟨next, hnext, (Except.ok.inj hmove).symm⟩
  · intro h
    obtain ⟨next, hnext, rfl⟩ := h
    exact ⟨next, hnext, rfl⟩

/-- Whichever end is kept, the new point is the newer one. -/
theorem FalsePosition.newer_onGraph_advance {f : Float → Float} (s : TwoPoint)
    {next : Point Float} (h : next.OnGraph f) : (advance s next).newer.OnGraph f := by
  rw [newer_advance]
  exact h

/-! ## Steps from three points -/

/-- Muller's method is stuck where there is no parabola, and otherwise goes to its zero. -/
theorem Muller.step_eq_ok {f : Float → Float} {number : Nat} {s : ThreePoint}
    {advance : Advance ThreePoint} :
    (step f number s).outcome = .ok advance ↔
      (parabola? s = none ∧ advance = .stuck) ∨
        ∃ q root next, parabola? s = some q ∧
          (discriminantRoot q.discriminant).value = root ∧
          (s.newest.x + q.nearestZero root).isFinite = true ∧
          (evaluatePoint f (s.newest.x + q.nearestZero root)).outcome = .ok next ∧
          advance = .moved ⟨s.middle, s.newest, next⟩ := by
  unfold step
  -- the cases of the statement are those of the parabola
  split
  · next hq =>
    simp only [hq, Run.outcome_lift_bind, Run.outcome_pure]
    constructor
    · intro h
      cases h
      exact .inl ⟨trivial, rfl⟩
    · intro h
      rcases h with ⟨-, rfl⟩ | ⟨q, -, -, hnone, -⟩
      · rfl
      · cases hnone
  · next q hq =>
    simp only [hq, Run.outcome_bind_eq_ok, Run.outcome_lift_bind, Run.outcome_check_eq_ok,
      Run.outcome_pure]
    constructor
    · intro h
      -- the root of the discriminant is there in any case, so the two checks decide
      obtain ⟨hfin, next, hnext, hadvance⟩ := h
      cases hadvance
      exact .inr ⟨q, _, next, rfl, rfl, hfin, hnext, rfl⟩
    · intro h
      rcases h with ⟨hsome, -⟩ | ⟨_, _, next, hsome, rfl, hfin, hnext, rfl⟩
      · cases hsome
      · cases hsome
        exact ⟨hfin, next, hnext, rfl⟩

end ScalarRoots
