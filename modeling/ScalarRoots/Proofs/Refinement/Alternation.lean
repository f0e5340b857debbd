import ScalarRoots.Proofs.Refinement.Lockstep
import ScalarRoots.Proofs.Refinement.Running
import ScalarRoots.Proofs.Sign

/-!
# False position where signs alternate

The method of false position and the secant method go to the same intercept and differ in the
point that they keep with it.  The secant method always keeps the newer one, and so does false
position where the sign changes between that and the new point.  So as long as the values of the
secant method alternate in sign, the two methods are one.

## Key results

- `Secant.Alternates`: the values of the secant method alternate in sign
- `FalsePosition.advance_of_signBit_ne`: where they do, the newer point is kept
- `Secant.Alternates.agreesWithin`: so the steps of the two methods agree
- `FalsePosition.outcome_refine_of_alternates`: and so do their refinements
-/

namespace ScalarRoots

open Binary64

/-- In each step that the secant method takes within its budget, the new value has another sign
    bit than the newest one before it. -/
def Secant.Alternates (f : Float → Float) (t : Tolerance) (budget : Nat) (x₀ x₁ : Float) : Prop :=
  ∀ done best s p, (scheme f t).Visits ⟨⟨x₀, f x₀⟩, ⟨x₁, f x₁⟩⟩ done best s → done < budget →
    s.criterion? t = none → (s.interceptPoint f).outcome = .ok p →
      signBit p.y ≠ signBit s.newer.y

/-- A pair of points as a bracket. -/
def Stencil.asBracket : Stencil → Stencil
  | pair x₀ x₁ => bracket x₀ x₁
  | s => s

/-! ## Steps -/

/-- Where the sign changes between the newer point and a new one, the newer is kept. -/
theorem FalsePosition.advance_of_signBit_ne {s : TwoPoint} {next : Point Float}
    (hnext : next.y.isNaN = false) (hnewer : s.newer.y.isNaN = false)
    (h : signBit next.y ≠ signBit s.newer.y) : advance s next = ⟨s.newer, next⟩ := by
  unfold advance
  rw [Verdict.ofValues_eq_brackets.2 ⟨hnext, hnewer, h⟩]

/-- There the methods take the same step. -/
theorem FalsePosition.outcome_step_eq_secant {f : Float → Float} {number : Nat} {s : TwoPoint}
    (hs : s.newer.OnGraph f)
    (h : ∀ p, (s.interceptPoint f).outcome = .ok p → signBit p.y ≠ signBit s.newer.y) :
    (step f number s).outcome = (Secant.step f number s).outcome := by
  unfold step Secant.step
  rw [Run.outcome_bind, Run.outcome_bind]
  cases hp : (s.interceptPoint f).outcome with
  | error e => rfl
  | ok p =>
    have hgraph := TwoPoint.onGraph_of_interceptPoint hp
    -- the log records differ, but what the steps lead to does not
    show Except.ok (Advance.moved (advance s p)) = Except.ok (Advance.moved ⟨s.newer, p⟩)
    rw [advance_of_signBit_ne (isNaN_of_isFinite hgraph.finite) (isNaN_of_isFinite hs.finite)
      (h p hp)]

/-- The two methods differ in nothing but how they advance. -/
theorem Secant.resembles_falsePosition (f : Float → Float) (t : Tolerance) :
    (scheme f t).Resembles (FalsePosition.scheme f t) Stencil.asBracket :=
  ⟨fun _ => rfl, fun _ => rfl, fun _ => rfl⟩

/-- Where signs alternate, a step of false position is one of the secant method. -/
theorem Secant.Alternates.agreesWithin {f : Float → Float} {t : Tolerance} {budget : Nat}
    {x₀ x₁ : Float} (h : Alternates f t budget x₀ x₁) {s₀ : TwoPoint}
    (hs₀ : (TwoPoint.start f x₀ x₁).outcome = .ok s₀) :
    (scheme f t).AgreesWithin (FalsePosition.scheme f t) id budget s₀ := by
  intro done best s hvis hlt hgo
  -- the states that are visited are finite, so no value is NaN
  have hfin := isFinite_of_visits (TwoPoint.isFinite_of_start hs₀) hvis
  obtain ⟨-, rfl, -⟩ := TwoPoint.start_eq_ok.1 hs₀
  have hstep : (FalsePosition.step f (done + 1) s).outcome = (step f (done + 1) s).outcome :=
    FalsePosition.outcome_step_eq_secant hfin.newer.1 fun p hp => h done best s p hvis hlt hgo hp
  exact hstep.trans (Except.mapError_id _).symm

/-! ## Refinements -/

namespace FalsePosition

/-- The method of false position is the secant method as long as signs alternate.  Let the secant
    method, in each step that it takes within a given number of iterations, come to a value with
    another sign bit than the newest one before.  Then false position, with the same starts,
    tolerance and number of iterations, has the same outcome.  It reports the same root with the
    same value, iterations, evaluations and ending, and as its bracket the two points that the
    secant method reports, in the same order; or it fails with the same error. -/
theorem outcome_refine_of_alternates (f : Float → Float) (t : Tolerance) (iterations : Count)
    (x₀ x₁ : Float) (h : Secant.Alternates f t iterations.toNat x₀ x₁) :
    (refine f ⟨t, some iterations⟩ x₀ x₁).outcome =
      (Secant.refine f ⟨t, some iterations⟩ x₀ x₁).outcome.map
        fun r => { r with algorithm := .falsePosition, stencil := r.stencil.asBracket } := by
  -- no error is renamed, and no step costs more than the other
  have hrun : (refine f ⟨t, some iterations⟩ x₀ x₁).outcome =
      ((Secant.refine f ⟨t, some iterations⟩ x₀ x₁).outcome.mapError id).map
        (Report.retold .falsePosition Stencil.asBracket 0) :=
    (Secant.resembles_falsePosition f t).outcome_refine
      ((Refinement.secant x₀ x₁).isAccounted_scheme f t)
      ((Refinement.falsePosition x₀ x₁).isAccounted_scheme f t) rfl
      (TwoPoint.isAccounted_start f x₀ x₁) (TwoPoint.isAccounted_start f x₀ x₁) rfl
      (fun _ _ => rfl) (fun _ hs₀ => h.agreesWithin hs₀)
  rw [Except.mapError_id] at hrun
  exact hrun

/-- A sign change at the one point that a step can lead to. -/
theorem signBit_ne_of_interceptPoint {f : Float → Float} {s : TwoPoint} {p : Point Float}
    (h : (s.interceptPoint f).outcome.toOption.all
      (fun q => signBit q.y != signBit s.newer.y) = true)
    (hp : (s.interceptPoint f).outcome = .ok p) : signBit p.y ≠ signBit s.newer.y := by
  rw [hp] at h
  exact bne_iff_ne.1 h

/-- Towards minus the root of two, from starts where `2 - x ^ 2` is positive, the two methods
    converge in two steps: to a negative value and then to a positive one. -/
theorem outcome_refine_of_alternates_root_two :
    Secant.Alternates (fun x => 2 - x * x) .default 2 (-1.375) (-1.40625) ∧
      ∃ r, (Secant.refine (fun x => 2 - x * x) ⟨.default, some ⟨2, Nat.two_pos⟩⟩
          (-1.375) (-1.40625)).outcome = .ok r ∧ r.isConverged = true ∧ r.iterations = 2 ∧
        (refine (fun x => 2 - x * x) ⟨.default, some ⟨2, Nat.two_pos⟩⟩
          (-1.375) (-1.40625)).outcome =
            .ok { r with algorithm := .falsePosition, stencil := r.stencil.asBracket } := by
  have halternates : Secant.Alternates (fun x => 2 - x * x) .default 2 (-1.375) (-1.40625) := by
    intro done best s p hvis hlt _ hp
    cases hvis with
    | start => exact signBit_ne_of_interceptPoint (by decide +kernel) hp
    | moved h _ hstep =>
      cases h with
      | start =>
        -- the first intercept is all that the second state depends on
        obtain ⟨q, hq, hmove⟩ := Secant.step_eq_ok.1 hstep
        obtain ⟨x, hx, hpoint⟩ := TwoPoint.interceptPoint_eq_ok.1 hq
        obtain ⟨rfl, -⟩ := evaluatePoint_eq_ok.1 hpoint
        obtain rfl : -1.4143258426966292 = x := by
          have hfirst : TwoPoint.intercept ⟨⟨-1.375, 2 - -1.375 * -1.375⟩,
              ⟨-1.40625, 2 - -1.40625 * -1.40625⟩⟩ = some (-1.4143258426966292) := by
            decide +kernel
          exact Option.some.inj (hfirst.symm.trans hx)
        cases hmove
        exact signBit_ne_of_interceptPoint (by decide +kernel) hp
      | moved => exact absurd hlt (by show ¬ _ + 1 + 1 < 2; omega)
  refine ⟨halternates, ?_⟩
  obtain ⟨r, hr, htest⟩ := exists_report_of_any
    (x := Secant.refine (fun x => 2 - x * x) ⟨.default, some ⟨2, Nat.two_pos⟩⟩
      (-1.375) (-1.40625)) (p := fun r => r.isConverged ∧ r.iterations = 2) (by decide +kernel)
  obtain ⟨hconverged, hiterations⟩ := of_decide_eq_true htest
  refine ⟨r, hr, hconverged, hiterations, ?_⟩
  rw [outcome_refine_of_alternates _ _ ⟨2, Nat.two_pos⟩ _ _ halternates, hr]
  rfl

end FalsePosition

end ScalarRoots
