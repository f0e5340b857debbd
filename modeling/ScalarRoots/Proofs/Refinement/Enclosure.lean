import ScalarRoots.Proofs.Refinement.Course
import ScalarRoots.Proofs.Refinement.Steps
import ScalarRoots.Proofs.Sign

/-!
# False position keeps its bracket

The method of false position starts from two points with values of opposite sign, and a
sign change between its two points is never lost.  The newer end may turn out to be a root,
the iteration then ends with it.  The older end never is one: an end becomes the older one
only after it was found to be no root.

## Key results

- `TwoPoint.Encloses`: the invariant, stated with sign bits so that a zero has one too
- `TwoPoint.Encloses.advance` / `TwoPoint.Encloses.step`: a step keeps it
- `FalsePosition.encloses_of_visits`: it holds at every state on the way
- `FalsePosition.refine_encloses`: and every report encloses a root
-/

namespace ScalarRoots

open Binary64

/-! ## The invariant -/

/-- The two points are points of the graph, the older one is no root, and the sign bits of
    their values differ. -/
structure TwoPoint.Encloses (f : Float → Float) (s : TwoPoint) : Prop where
  older_onGraph : s.older.OnGraph f
  newer_onGraph : s.newer.OnGraph f
  older_ne_zero : (s.older.y == 0) = false
  signBit_ne : signBit s.older.y ≠ signBit s.newer.y

namespace TwoPoint

/-- Two points of the graph with opposite signs enclose a root. -/
theorem encloses_of_oppositeSigns {f : Float → Float} {s : TwoPoint}
    (holder : s.older.OnGraph f) (hnewer : s.newer.OnGraph f)
    (h : OppositeSigns s.older.y s.newer.y) : s.Encloses f := by
  obtain ⟨⟨-, hzero⟩, -, hne⟩ := oppositeSigns_iff.1 h
  exact ⟨holder, hnewer, hzero, hne⟩

/-- An iteration that goes on has not found a root. -/
theorem newer_ne_zero_of_criterion?_eq_none {t : Tolerance} {s : TwoPoint}
    (h : s.criterion? t = none) : (s.newer.y == 0) = false := by
  obtain ⟨hresidual, -⟩ := criterion?_eq_none.1 h
  -- a zero is below every tolerance
  cases hzero : s.newer.y == 0 with
  | false => rfl
  | true => exact absurd (abs_lt_of_beq_zero hzero t.pos) hresidual

/-- The values at the two ends have opposite signs, or the newer end is a root. -/
theorem Encloses.oppositeSigns_or {f : Float → Float} {s : TwoPoint} (h : s.Encloses f) :
    OppositeSigns (f s.older.x) (f s.newer.x) ∨ (f s.newer.x == 0) = true := by
  rw [← h.older_onGraph.value_eq, ← h.newer_onGraph.value_eq]
  cases hzero : s.newer.y == 0 with
  | true => exact .inr rfl
  | false =>
    have holder := isNaN_of_isFinite h.older_onGraph.finite
    have hnewer := isNaN_of_isFinite h.newer_onGraph.finite
    exact .inl (oppositeSigns_iff.2
      ⟨⟨holder, h.older_ne_zero⟩, ⟨hnewer, hzero⟩, h.signBit_ne⟩)

/-! ## Steps -/

/-- A new point narrows the bracket to one that encloses a sign change again, unless the
    newer end was a root. -/
theorem Encloses.advance {f : Float → Float} {s : TwoPoint} {next : Point Float}
    (h : s.Encloses f) (hzero : (s.newer.y == 0) = false) (hnext : next.OnGraph f) :
    (FalsePosition.advance s next).Encloses f := by
  unfold FalsePosition.advance
  split
  · -- the sign changes between the new point and the newer end, which is kept
    next hbrackets =>
    obtain ⟨-, -, hne⟩ := Verdict.ofValues_eq_brackets.1 hbrackets
    exact ⟨h.newer_onGraph, hnext, hzero, hne.symm⟩
  · -- the new point has the sign of the newer end and takes its place
    next hsame =>
    have hnaN := isNaN_of_isFinite h.newer_onGraph.finite
    have hnaN' := isNaN_of_isFinite hnext.finite
    have heq : signBit next.y = signBit s.newer.y := by
      by_cases heq : signBit next.y = signBit s.newer.y
      · exact heq
      · exact absurd (Verdict.ofValues_eq_brackets.2 ⟨hnaN', hnaN, heq⟩) hsame
    exact ⟨h.older_onGraph, hnext, h.older_ne_zero, heq ▸ h.signBit_ne⟩

/-- A step of an iteration that goes on keeps the sign change enclosed. -/
theorem Encloses.step {f : Float → Float} {t : Tolerance} {number : Nat} {s next : TwoPoint}
    (h : s.Encloses f) (hgo : s.criterion? t = none)
    (hstep : (FalsePosition.step f number s).outcome = .ok (.moved next)) :
    next.Encloses f := by
  obtain ⟨p, hp, hmove⟩ := FalsePosition.step_eq_ok.1 hstep
  obtain ⟨x, -, hx⟩ := interceptPoint_eq_ok.1 hp
  obtain ⟨-, hgraph⟩ := evaluatePoint_eq_ok.1 hx
  cases hmove
  exact h.advance (newer_ne_zero_of_criterion?_eq_none hgo) hgraph

end TwoPoint

/-! ## Runs -/

namespace FalsePosition

/-- So do the points of every state that is visited, if those of the start do. -/
theorem encloses_of_visits {f : Float → Float} {t : Tolerance} {s₀ s : TwoPoint} {done : Nat}
    {best : Point Float} (h₀ : s₀.Encloses f) (h : (scheme f t).Visits s₀ done best s) :
    s.Encloses f :=
  h.invariant h₀ fun hs hgo hstep => hs.step hgo hstep

/-- However an iteration from such a state ends, it ends with a bracket around a sign change
    or with a root at its newest end. -/
theorem exists_bracket_of_ends {f : Float → Float} {t : Tolerance} {s₀ : TwoPoint}
    {budget : Nat} {fin : Finish} (h₀ : s₀.Encloses f) (h : (scheme f t).Ends s₀ budget fin) :
    ∃ s : TwoPoint, s.Encloses f ∧ fin.stencil = .bracket s.older.x s.newer.x := by
  cases h with
  | met hvis => exact ⟨_, encloses_of_visits h₀ hvis, rfl⟩
  | exhausted hvis => exact ⟨_, encloses_of_visits h₀ hvis, rfl⟩
  | accepted _ _ _ hstep =>
    obtain ⟨_, -, hmove⟩ := step_eq_ok.1 hstep
    cases hmove
  | stuck _ _ _ hstep =>
    obtain ⟨_, -, hmove⟩ := step_eq_ok.1 hstep
    cases hmove

/-- From two distinct finite locations with finite values of opposite sign, the method of
    false position keeps a sign change between its two points: at every state on the way the
    points lie on the graph, the older one is no root, and the sign bits of the values differ.
    So the bracket of every report has values of opposite sign at its ends, or a root at the
    newest one. -/
theorem refine_encloses (f : Float → Float) (settings : Settings) (x₀ x₁ : Float)
    (hx₀ : x₀.isFinite = true) (hx₁ : x₁.isFinite = true) (hne : (x₀ == x₁) = false)
    (hy₀ : (f x₀).isFinite = true) (hy₁ : (f x₁).isFinite = true)
    (hsign : OppositeSigns (f x₀) (f x₁)) :
    ∃ s₀, (TwoPoint.start f x₀ x₁).outcome = .ok s₀ ∧
      (∀ done best s, (scheme f settings.tolerance).Visits s₀ done best s → s.Encloses f) ∧
      ∀ r, (refine f settings x₀ x₁).outcome = .ok r →
        ∃ a b, r.stencil = .bracket a b ∧
          (OppositeSigns (f a) (f b) ∨ (f b == 0) = true) := by
  have hstart : (TwoPoint.start f x₀ x₁).outcome = .ok ⟨⟨x₀, f x₀⟩, ⟨x₁, f x₁⟩⟩ :=
    TwoPoint.start_eq_ok.2 ⟨⟨hx₀, hx₁, hne⟩, rfl, ⟨rfl, hy₀⟩, ⟨rfl, hy₁⟩⟩
  have h₀ : TwoPoint.Encloses f ⟨⟨x₀, f x₀⟩, ⟨x₁, f x₁⟩⟩ :=
    TwoPoint.encloses_of_oppositeSigns ⟨rfl, hy₀⟩ ⟨rfl, hy₁⟩ hsign
  refine ⟨_, hstart, fun _ _ _ hvis => encloses_of_visits h₀ hvis, fun r hr => ?_⟩
  obtain ⟨s₀, fin, _, hs₀, hends, rfl⟩ := exists_ends_of_refine hr
  rw [hstart] at hs₀
  cases hs₀
  obtain ⟨s, hs, hstencil⟩ := exists_bracket_of_ends h₀ hends
  exact ⟨s.older.x, s.newer.x, hstencil, hs.oppositeSigns_or⟩

/-- The root of two, enclosed between zero and two. -/
theorem refine_encloses_root_two :
    ∃ r, (refine (fun x => x * x - 2) {} 0 2).outcome = .ok r ∧
      ∃ a b, r.stencil = .bracket a b ∧
        (OppositeSigns (a * a - 2) (b * b - 2) ∨ (b * b - 2 == 0) = true) := by
  obtain ⟨r, hr⟩ := Run.exists_outcome_eq_ok
    (show (refine (fun x => x * x - 2) {} 0 2).outcome.isOk = true by decide +kernel)
  obtain ⟨_, -, -, henclosed⟩ := refine_encloses (fun x => x * x - 2) {} 0 2 (by decide)
    (by decide) (by decide) (by decide +kernel) (by decide +kernel) (by decide +kernel)
  exact ⟨r, hr, henclosed r hr⟩

end FalsePosition

end ScalarRoots
