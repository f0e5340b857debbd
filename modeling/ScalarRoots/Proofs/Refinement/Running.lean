import ScalarRoots.Proofs.Refinement.Course
import ScalarRoots.Proofs.Refinement.Steps

/-!
# The points that an iteration runs on

The methods that remember several points, and Chebyshev's method, start from finite locations and
refuse every new location that is not finite.  So whatever a state of theirs remembers is a finite
point of the graph, and they evaluate nowhere but at finite locations.

## Key results

- `Point.IsFinite`: a point of the graph whose location is finite as well
- `Secant.isFinite_of_step` and its namesakes: a step leads from such points to such points
- `Secant.isFinite_of_visits` / `FalsePosition.isFinite_of_visits` /
  `Muller.isFinite_of_visits`: so the points of every state on the way are such points
- `Secant.mem_probes_step` / `FalsePosition.mem_probes_step`: a step evaluates at the intercept
- `Muller.mem_probes_step` / `Chebyshev.mem_probes_step`: where the steps of the others evaluate
-/

namespace ScalarRoots

/-- A point of the graph whose location is finite as well as its value. -/
structure Point.IsFinite (f : Float → Float) (p : Point Float) : Prop extends p.OnGraph f where
  location_finite : p.x.isFinite = true

/-- Evaluated at a finite location, a function that is finite there gives a finite point. -/
theorem Point.isFinite_of_evaluatePoint {f : Float → Float} {x : Float} {p : Point Float}
    (hx : x.isFinite = true) (h : (evaluatePoint f x).outcome = .ok p) : p.IsFinite f := by
  obtain ⟨rfl, hgraph⟩ := evaluatePoint_eq_ok.1 h
  exact ⟨hgraph, hx⟩

/-! ## Evaluations -/

/-- An evaluation is made at one location. -/
theorem mem_probes_evaluate {q : Quantity} {g : Float → Float} {x : Float} {p : Probe} :
    p ∈ (evaluate q g x).probes ↔ p = ⟨q, x, g x⟩ := by
  rw [probes_evaluate, List.mem_singleton]

/-- So is the evaluation of a point. -/
theorem mem_probes_evaluatePoint {f : Float → Float} {x : Float} {p : Probe} :
    p ∈ (evaluatePoint f x).probes ↔ p = ⟨.value, x, f x⟩ := by
  rw [probes_evaluatePoint, List.mem_singleton]

/-- A run behind a check evaluates where the check succeeds. -/
theorem Run.mem_probes_check {ε α : Type} {b : Bool} {e : ε} {x : Run ε α} {p : Probe} :
    p ∈ (if (!b) = true then (throw e : Run ε PUnit) >>= fun _ => x else x).probes ↔
      b = true ∧ p ∈ x.probes := by
  cases b with
  | true => exact ⟨fun h => ⟨rfl, h⟩, And.right⟩
  | false => exact ⟨fun h => absurd h List.not_mem_nil, nofun⟩

/-- What goes on without an evaluation has evaluated before. -/
theorem Run.mem_probes_of_bind {ε α β : Type} {x : Run ε α} {g : α → Run ε β} {p : Probe}
    (hg : ∀ a, (g a).probes = []) (h : p ∈ (x >>= g).probes) : p ∈ x.probes := by
  rcases mem_probes_bind.1 h with hx | ⟨a, -, hrest⟩
  · exact hx
  · rw [hg a] at hrest
    exact absurd hrest List.not_mem_nil

/-- A step that ends by going to a new point evaluates there and nowhere else from then on. -/
theorem location_of_mem_probes_bind {α : Type} {f : Float → Float} {x : Float}
    {g : Point Float → Run RefineError α} {p : Probe} (hg : ∀ q, (g q).probes = [])
    (h : p ∈ (evaluatePoint f x >>= g).probes) : p.location = x := by
  rw [mem_probes_evaluatePoint.1 (Run.mem_probes_of_bind hg h)]

/-! ## Two points -/

/-- Both points are finite points of the graph. -/
structure TwoPoint.IsFinite (f : Float → Float) (s : TwoPoint) : Prop where
  older : s.older.IsFinite f
  newer : s.newer.IsFinite f

namespace TwoPoint

/-- Both locations are finite. -/
theorem IsFinite.forall_location {f : Float → Float} {s : TwoPoint} (hs : s.IsFinite f) :
    ∀ x ∈ [s.older.x, s.newer.x], x.isFinite = true :=
  List.forall_mem_cons.2
    ⟨hs.older.location_finite, List.forall_mem_singleton.2 hs.newer.location_finite⟩

/-- Two starts that are accepted are finite points. -/
theorem isFinite_of_start {f : Float → Float} {x₀ x₁ : Float} {s : TwoPoint}
    (h : (start f x₀ x₁).outcome = .ok s) : s.IsFinite f := by
  obtain ⟨⟨hx₀, hx₁, -⟩, rfl, holder, hnewer⟩ := start_eq_ok.1 h
  exact ⟨⟨holder, hx₀⟩, ⟨hnewer, hx₁⟩⟩

/-- A start evaluates the function at the two locations. -/
theorem mem_probes_start {f : Float → Float} {x₀ x₁ : Float} {p : Probe}
    (h : p ∈ (start f x₀ x₁).probes) : p.location = x₀ ∨ p.location = x₁ := by
  unfold start at h
  split at h
  · simp only [Run.mem_probes_bind, mem_probes_evaluatePoint] at h
    -- the first start, the second, and nothing after them
    rcases h with rfl | ⟨_, _, rfl | ⟨_, _, hnone⟩⟩
    · exact .inl rfl
    · exact .inr rfl
    · exact absurd hnone List.not_mem_nil
  · exact absurd h List.not_mem_nil

/-- It does so only when both are finite. -/
theorem isFinite_of_mem_probes_start {f : Float → Float} {x₀ x₁ : Float} {p : Probe}
    (h : p ∈ (start f x₀ x₁).probes) : p.location.isFinite = true := by
  have hlocation := mem_probes_start h
  unfold start at h
  -- the locations are checked before anything is evaluated
  split at h
  · next hfin =>
    simp only [Bool.and_eq_true] at hfin
    rcases hlocation with hx | hx <;> rw [hx]
    · exact hfin.1.1
    · exact hfin.1.2
  · exact absurd h List.not_mem_nil

/-- The intercept is finite where there is one. -/
theorem isFinite_of_interceptPoint {f : Float → Float} {s : TwoPoint} {p : Point Float}
    (h : (s.interceptPoint f).outcome = .ok p) : p.IsFinite f := by
  obtain ⟨x, hx, hpoint⟩ := interceptPoint_eq_ok.1 h
  exact Point.isFinite_of_evaluatePoint (intercept_eq_some hx).1 hpoint

/-- An intercept is evaluated only where there is one. -/
theorem mem_probes_interceptPoint {f : Float → Float} {s : TwoPoint} {p : Probe}
    (h : p ∈ (s.interceptPoint f).probes) : s.intercept = some p.location := by
  unfold interceptPoint at h
  cases hx : s.intercept with
  | none =>
    rw [hx] at h
    exact absurd h List.not_mem_nil
  | some x =>
    rw [hx] at h
    rw [mem_probes_evaluatePoint.1 h]

end TwoPoint

/-- A step evaluates the function at the intercept. -/
theorem Secant.mem_probes_step {f : Float → Float} {number : Nat} {s : TwoPoint} {p : Probe}
    (h : p ∈ (step f number s).probes) : s.intercept = some p.location :=
  TwoPoint.mem_probes_interceptPoint (Run.mem_probes_of_bind (fun _ => rfl) h)

/-- A step of the secant method leads from finite points to finite points. -/
theorem Secant.isFinite_of_step {f : Float → Float} {number : Nat} {s next : TwoPoint}
    (hs : s.IsFinite f) (h : (step f number s).outcome = .ok (.moved next)) :
    next.IsFinite f := by
  obtain ⟨p, hp, hmove⟩ := step_eq_ok.1 h
  cases hmove
  exact ⟨hs.newer, TwoPoint.isFinite_of_interceptPoint hp⟩

/-- So all points of its states are finite. -/
theorem Secant.isFinite_of_visits {f : Float → Float} {t : Tolerance} {s₀ s : TwoPoint}
    {done : Nat} {best : Point Float} (h₀ : s₀.IsFinite f)
    (h : (scheme f t).Visits s₀ done best s) : s.IsFinite f :=
  h.invariant h₀ fun hs _ hstep => isFinite_of_step hs hstep

/-- So does a step of the method of false position. -/
theorem FalsePosition.mem_probes_step {f : Float → Float} {number : Nat} {s : TwoPoint}
    {p : Probe} (h : p ∈ (step f number s).probes) : s.intercept = some p.location :=
  TwoPoint.mem_probes_interceptPoint (Run.mem_probes_of_bind (fun _ => rfl) h)

/-- A step of false position keeps one of two finite points and adds another. -/
theorem FalsePosition.isFinite_of_step {f : Float → Float} {number : Nat} {s next : TwoPoint}
    (hs : s.IsFinite f) (h : (step f number s).outcome = .ok (.moved next)) :
    next.IsFinite f := by
  obtain ⟨p, hp, hmove⟩ := step_eq_ok.1 h
  cases hmove
  refine ⟨?_, (newer_advance s p).symm ▸ TwoPoint.isFinite_of_interceptPoint hp⟩
  -- either of the two points may be kept
  rcases older_advance s p with hold | hold <;> rw [hold]
  · exact hs.newer
  · exact hs.older

/-- So all ends of its brackets are finite. -/
theorem FalsePosition.isFinite_of_visits {f : Float → Float} {t : Tolerance} {s₀ s : TwoPoint}
    {done : Nat} {best : Point Float} (h₀ : s₀.IsFinite f)
    (h : (scheme f t).Visits s₀ done best s) : s.IsFinite f :=
  h.invariant h₀ fun hs _ hstep => isFinite_of_step hs hstep

/-! ## Three points -/

/-- All three points are finite points of the graph. -/
structure ThreePoint.IsFinite (f : Float → Float) (s : ThreePoint) : Prop where
  oldest : s.oldest.IsFinite f
  middle : s.middle.IsFinite f
  newest : s.newest.IsFinite f

namespace Muller

/-- Three starts that are accepted are finite points. -/
theorem isFinite_of_start {f : Float → Float} {x₀ x₁ x₂ : Float} {s : ThreePoint}
    (h : (start f x₀ x₁ x₂).outcome = .ok s) : s.IsFinite f := by
  obtain ⟨⟨hx₀, hx₁, hx₂⟩, rfl, holdest, hmiddle, hnewest⟩ := start_eq_ok.1 h
  exact ⟨⟨holdest, hx₀⟩, ⟨hmiddle, hx₁⟩, ⟨hnewest, hx₂⟩⟩

/-- A start evaluates only when all three locations are finite. -/
theorem isFinite_of_mem_probes_start {f : Float → Float} {x₀ x₁ x₂ : Float} {p : Probe}
    (h : p ∈ (start f x₀ x₁ x₂).probes) : p.location.isFinite = true := by
  unfold start at h
  split at h
  · next hfin =>
    simp only [Bool.and_eq_true] at hfin
    simp only [Run.mem_probes_bind, mem_probes_evaluatePoint] at h
    rcases h with rfl | ⟨_, _, rfl | ⟨_, _, rfl | ⟨_, _, hnone⟩⟩⟩
    · exact hfin.1.1
    · exact hfin.1.2
    · exact hfin.2
    · exact absurd hnone List.not_mem_nil
  · exact absurd h List.not_mem_nil

/-- A step evaluates the function at the zero of the parabola, once that is known to be finite. -/
theorem mem_probes_step {f : Float → Float} {number : Nat} {s : ThreePoint} {p : Probe}
    (h : p ∈ (step f number s).probes) : p.location.isFinite = true := by
  unfold step at h
  split at h
  · exact absurd h List.not_mem_nil
  · next q _ =>
    rcases Run.mem_probes_bind.1 h with hroot | ⟨_, -, hrest⟩
    · -- the root of the discriminant takes no evaluation
      unfold discriminantRoot at hroot
      split at hroot <;> exact absurd hroot List.not_mem_nil
    · obtain ⟨hfin, hpoint⟩ := Run.mem_probes_check.1 hrest
      rwa [← location_of_mem_probes_bind (fun _ => rfl) hpoint] at hfin

/-- A step of Muller's method leads from finite points to finite points. -/
theorem isFinite_of_step {f : Float → Float} {number : Nat} {s next : ThreePoint}
    (hs : s.IsFinite f) (h : (step f number s).outcome = .ok (.moved next)) :
    next.IsFinite f := by
  -- a stuck step does not move on
  rcases step_eq_ok.1 h with ⟨-, hstuck⟩ | ⟨_, _, p, -, -, hfin, hp, hmove⟩
  · cases hstuck
  · cases hmove
    exact ⟨hs.middle, hs.newest, Point.isFinite_of_evaluatePoint hfin hp⟩

/-- So all points of its states are finite. -/
theorem isFinite_of_visits {f : Float → Float} {t : Tolerance} {s₀ s : ThreePoint}
    {done : Nat} {best : Point Float} (h₀ : s₀.IsFinite f)
    (h : (scheme f t).Visits s₀ done best s) : s.IsFinite f :=
  h.invariant h₀ fun hs _ hstep => isFinite_of_step hs hstep

end Muller

/-! ## One point -/

/-- The current point is a finite point of the graph, and the previous location is finite. -/
structure OnePoint.IsFinite (f : Float → Float) (s : OnePoint) : Prop where
  current : s.current.IsFinite f
  previous_finite : s.previous.isFinite = true

namespace OnePoint

/-- A start that is accepted is a finite point, and counts as its own predecessor. -/
theorem isFinite_of_start {f : Float → Float} {x₀ : Float} {s : OnePoint}
    (h : (start f x₀).outcome = .ok s) : s.IsFinite f := by
  obtain ⟨hx₀, rfl, hgraph⟩ := start_eq_ok.1 h
  exact ⟨⟨hgraph, hx₀⟩, hx₀⟩

/-- A start evaluates only when its location is finite. -/
theorem isFinite_of_mem_probes_start {f : Float → Float} {x₀ : Float} {p : Probe}
    (h : p ∈ (start f x₀).probes) : p.location.isFinite = true := by
  unfold start at h
  split at h
  · next hfin =>
    rwa [location_of_mem_probes_bind (fun _ => rfl) h]
  · exact absurd h List.not_mem_nil

end OnePoint

/-- A Newton step evaluates the slope at its point. -/
theorem location_of_mem_probes_newtonStep {df : Float → Float} {q : Point Float} {p : Probe}
    (h : p ∈ (newtonStep df q).probes) : p.location = q.x := by
  rcases Run.mem_probes_bind.1 h with hslope | ⟨_, -, hrest⟩
  · rw [mem_probes_evaluate.1 hslope]
  · -- what is left is the check of the quotient
    dsimp only at hrest
    split at hrest <;> exact absurd hrest List.not_mem_nil

namespace Chebyshev

/-- A step evaluates the derivatives at the current location, and the function at the corrected
    one, once that is known to be finite. -/
theorem mem_probes_step {f df d2f : Float → Float} {t : Tolerance} {number : Nat} {s : OnePoint}
    {p : Probe} (h : p ∈ (step f df d2f t number s).probes) :
    p.location = s.current.x ∨ p.location.isFinite = true := by
  rcases Run.mem_probes_bind.1 h with hslope | ⟨_, -, hrest⟩
  · exact .inl (location_of_mem_probes_newtonStep hslope)
  · rcases Run.mem_probes_bind.1 hrest with hcurvature | ⟨_, -, hrest⟩
    · exact .inl (by rw [mem_probes_evaluate.1 hcurvature])
    · obtain ⟨hfin, hpoint⟩ := Run.mem_probes_check.1 hrest
      refine .inr ?_
      rwa [← location_of_mem_probes_bind (fun _ => by split <;> rfl) hpoint] at hfin

/-- A step to a corrected location leads to finite points, whether it is accepted or not. -/
theorem isFinite_of_step {f df d2f : Float → Float} {t : Tolerance} {number : Nat}
    {s next : OnePoint} (hs : s.IsFinite f)
    (h : (step f df d2f t number s).outcome = .ok (.moved next) ∨
      (step f df d2f t number s).outcome = .ok (.accepted next)) :
    next.IsFinite f := by
  -- the move itself, whichever of the two it is called
  have hmove {p : Point Float} {x : Float} (hx : x.isFinite = true)
      (hp : (evaluatePoint f x).outcome = .ok p) : (s.moveTo p).IsFinite f :=
    ⟨Point.isFinite_of_evaluatePoint hx hp, hs.current.location_finite⟩
  rcases h with h | h <;> obtain ⟨_, _, p, -, -, hx, hp, hadvance⟩ := step_eq_ok.1 h <;>
    split at hadvance <;> cases hadvance <;> exact hmove hx hp

end Chebyshev

end ScalarRoots
