import ScalarRoots.Proofs.Refinement.Honesty
import ScalarRoots.Proofs.Refinement.Running

/-!
# Refinements that stay finite

Newton's method and the multipoint iteration may leave the finite numbers.  The other four
methods look at every new location before they go there: the zero of a line, the zero of a
parabola and the corrected Newton step have to be finite, whatever has overflowed or vanished on
the way to them.  So these methods evaluate nowhere but at finite locations, and what they report
is finite too.

## Key results

- `Scheme.StaysFinite`: what keeps an iteration among the finite numbers
- `Scheme.StaysFinite.isFinite_of_visits`: it remembers finite points at every state on the way
- `Scheme.StaysFinite.mem_probes_refine` / `Scheme.StaysFinite.isFinite_report`: so it evaluates
  at finite locations, and reports finite points
- `Refinement.staysFinite`: the schemes of the four methods
- `Refinement.isFinite_of_run`: where they evaluate and what they report
-/

namespace ScalarRoots

variable {σ : Type}

/-- The root is a finite point of the graph, and the locations of the stencil are finite. -/
structure Report.IsFinite (f : Float → Float) (r : Report) : Prop where
  root : r.root.IsFinite f
  stencil : ∀ x ∈ r.stencil.points, x.isFinite = true

/-! ## Iterations -/

/-- A property of states that says that they remember finite points only.  From such a state a
    step evaluates at finite locations, and it leads to such a state again. -/
structure Scheme.StaysFinite (m : Scheme σ) (f : Float → Float) (P : σ → Prop) : Prop where
  newest : ∀ {s}, P s → (m.newest s).IsFinite f
  stencil : ∀ {s}, P s → ∀ x ∈ (m.stencil s).points, x.isFinite = true
  probes : ∀ {number s p}, P s → p ∈ (m.step number s).probes → p.location.isFinite = true
  next : ∀ {number s advance next}, P s → (m.step number s).outcome = .ok advance →
    advance.next? = some next → P next

namespace Scheme.StaysFinite

variable {m : Scheme σ} {f : Float → Float} {P : σ → Prop} {s₀ : σ}

/-- Every state on the way remembers finite points only. -/
theorem isFinite_of_visits (hm : m.StaysFinite f P) (h₀ : P s₀) {done : Nat}
    {best : Point Float} {s : σ} (h : m.Visits s₀ done best s) : P s :=
  h.invariant h₀ fun hs _ hstep => hm.next hs hstep rfl

/-- The best point is the newest point of some state on the way. -/
theorem isFinite_best (hm : m.StaysFinite f P) (h₀ : P s₀) {done : Nat} {best : Point Float}
    {s : σ} (h : m.Visits s₀ done best s) : best.IsFinite f := by
  -- the best point is that of the state itself or of an earlier one
  rcases h.best_eq with rfl | ⟨_, _, u, hu, -, rfl⟩
  · exact hm.newest (hm.isFinite_of_visits h₀ h)
  · exact hm.newest (hm.isFinite_of_visits h₀ hu)

/-- A refinement that starts at finite points evaluates at finite locations. -/
theorem mem_probes_refine (hm : m.StaysFinite f P) {settings : Settings}
    {start : Run RefineError σ} (hstart : ∀ s, start.outcome = .ok s → P s)
    (hprobes : ∀ p ∈ start.probes, p.location.isFinite = true) {p : Probe}
    (hp : p ∈ (refine m settings start).probes) : p.location.isFinite = true := by
  -- a probe is one of the start or of a step from a state on the way
  rcases ScalarRoots.mem_probes_refine hp with hopening | ⟨s₀, _, _, s, hs₀, hvis, -, -, hstep⟩
  · exact hprobes p hopening
  · exact hm.probes (hm.isFinite_of_visits (hstart s₀ hs₀) hvis) hstep

/-- However it ends, it reports finite points. -/
theorem isFinite_report (hm : m.StaysFinite f P) {settings : Settings}
    {start : Run RefineError σ} (hstart : ∀ s, start.outcome = .ok s → P s) {r : Report}
    (hr : (refine m settings start).outcome = .ok r) : r.IsFinite f := by
  obtain ⟨s₀, fin, _, hs₀, hends, rfl⟩ := exists_ends_of_refine hr
  have h₀ := hstart s₀ hs₀
  -- the stencil is that of a state on the way, and so is the root, save when the budget runs out
  cases hends with
  | met hvis _ _ =>
    have hs := hm.isFinite_of_visits h₀ hvis
    exact ⟨hm.newest hs, hm.stencil hs⟩
  | exhausted hvis _ =>
    exact ⟨hm.isFinite_best h₀ hvis, hm.stencil (hm.isFinite_of_visits h₀ hvis)⟩
  | accepted hvis _ _ hstep =>
    have hnext := hm.next (hm.isFinite_of_visits h₀ hvis) hstep rfl
    exact ⟨hm.newest hnext, hm.stencil hnext⟩
  | stuck hvis _ _ _ =>
    have hs := hm.isFinite_of_visits h₀ hvis
    exact ⟨hm.newest hs, hm.stencil hs⟩

end Scheme.StaysFinite

/-! ## The four methods -/

namespace Refinement

/-- All points that a state of the method remembers are finite. -/
def HasFinitePoints (f : Float → Float) : (m : Refinement) → m.State → Prop
  | newton .. => OnePoint.IsFinite f
  | secant .. => TwoPoint.IsFinite f
  | falsePosition .. => TwoPoint.IsFinite f
  | muller .. => ThreePoint.IsFinite f
  | chebyshev .. => OnePoint.IsFinite f
  | multipoint .. => OnePoint.IsFinite f

/-- No start leads anywhere but to finite points. -/
theorem hasFinitePoints_of_start {m : Refinement} {f : Float → Float} {s : m.State}
    (h : (m.start f).outcome = .ok s) : m.HasFinitePoints f s := by
  cases m with
  | newton df x₀ => exact OnePoint.isFinite_of_start h
  | chebyshev df d2f x₀ => exact OnePoint.isFinite_of_start h
  | multipoint df rule x₀ => exact OnePoint.isFinite_of_start h
  | secant x₀ x₁ => exact TwoPoint.isFinite_of_start h
  | falsePosition x₀ x₁ => exact TwoPoint.isFinite_of_start h
  | muller x₀ x₁ x₂ => exact Muller.isFinite_of_start h

/-- And none evaluates anywhere else. -/
theorem isFinite_of_mem_probes_start {m : Refinement} {f : Float → Float} {p : Probe}
    (h : p ∈ (m.start f).probes) : p.location.isFinite = true := by
  cases m with
  | newton df x₀ => exact OnePoint.isFinite_of_mem_probes_start h
  | chebyshev df d2f x₀ => exact OnePoint.isFinite_of_mem_probes_start h
  | multipoint df rule x₀ => exact OnePoint.isFinite_of_mem_probes_start h
  | secant x₀ x₁ => exact TwoPoint.isFinite_of_mem_probes_start h
  | falsePosition x₀ x₁ => exact TwoPoint.isFinite_of_mem_probes_start h
  | muller x₀ x₁ x₂ => exact Muller.isFinite_of_mem_probes_start h

end Refinement

/-- The secant method goes to intercepts, which are finite. -/
theorem Secant.staysFinite (f : Float → Float) (t : Tolerance) :
    (scheme f t).StaysFinite f (TwoPoint.IsFinite f) where
  newest hs := hs.newer
  stencil hs := hs.forall_location
  probes _ hp := (TwoPoint.intercept_eq_some (mem_probes_step hp)).1
  next hs hstep hnext := by
    obtain ⟨_, -, rfl⟩ := step_eq_ok.1 hstep
    cases hnext
    exact isFinite_of_step hs hstep

/-- So does the method of false position. -/
theorem FalsePosition.staysFinite (f : Float → Float) (t : Tolerance) :
    (scheme f t).StaysFinite f (TwoPoint.IsFinite f) where
  newest hs := hs.newer
  stencil hs := hs.forall_location
  probes _ hp := (TwoPoint.intercept_eq_some (mem_probes_step hp)).1
  next hs hstep hnext := by
    obtain ⟨_, -, rfl⟩ := step_eq_ok.1 hstep
    cases hnext
    exact isFinite_of_step hs hstep

/-- Muller's method goes to zeros of parabolas that were found to be finite. -/
theorem Muller.staysFinite (f : Float → Float) (t : Tolerance) :
    (scheme f t).StaysFinite f (ThreePoint.IsFinite f) where
  newest hs := hs.newest
  stencil hs := by
    refine List.forall_mem_cons.2 ⟨hs.oldest.location_finite, List.forall_mem_cons.2 ⟨?_, ?_⟩⟩
    · exact hs.middle.location_finite
    · exact List.forall_mem_singleton.2 hs.newest.location_finite
  probes _ hp := mem_probes_step hp
  next hs hstep hnext := by
    rcases step_eq_ok.1 hstep with ⟨-, rfl⟩ | ⟨_, _, _, -, -, -, -, rfl⟩
    · cases hnext
    · cases hnext
      exact isFinite_of_step hs hstep

/-- Chebyshev's method goes to corrected locations that were found to be finite. -/
theorem Chebyshev.staysFinite (f df d2f : Float → Float) (t : Tolerance) :
    (scheme f df d2f t).StaysFinite f (OnePoint.IsFinite f) where
  newest hs := hs.current
  stencil hs := List.forall_mem_singleton.2 hs.previous_finite
  probes hs hp := by
    rcases mem_probes_step hp with hcurrent | hfin
    · rw [hcurrent]
      exact hs.current.location_finite
    · exact hfin
  next {_ _ advance _} hs hstep hnext := by
    -- a point that is accepted ends the iteration, but the report is made with it
    cases advance with
    | moved next =>
      cases hnext
      exact isFinite_of_step hs (.inl hstep)
    | accepted next =>
      cases hnext
      exact isFinite_of_step hs (.inr hstep)
    | stuck => cases hnext

namespace Refinement

/-- The schemes of the four methods stay among the finite numbers. -/
theorem staysFinite {m : Refinement} (hnewton : m.algorithm ≠ .newton)
    (hmultipoint : m.algorithm ≠ .multipoint) (f : Float → Float) (t : Tolerance) :
    (m.scheme f t).StaysFinite f (m.HasFinitePoints f) := by
  cases m with
  | newton df x₀ => exact absurd rfl hnewton
  | multipoint df rule x₀ => exact absurd rfl hmultipoint
  | secant x₀ x₁ => exact Secant.staysFinite f t
  | falsePosition x₀ x₁ => exact FalsePosition.staysFinite f t
  | muller x₀ x₁ x₂ => exact Muller.staysFinite f t
  | chebyshev df d2f x₀ => exact Chebyshev.staysFinite f df d2f t

/-- The secant method, false position, Muller's method and Chebyshev's method never leave the
    finite numbers.  Whether a run succeeds or fails, and whatever the functions and the starts
    are, the function and its derivatives are evaluated at finite locations only.  And a report
    has a finite root, at which the function has the finite value reported, and finite locations
    in its stencil. -/
theorem isFinite_of_run (m : Refinement) (f : Float → Float) (settings : Settings)
    (hm : m.algorithm = .secant ∨ m.algorithm = .falsePosition ∨ m.algorithm = .muller ∨
      m.algorithm = .chebyshev) :
    (∀ p ∈ (m.run f settings).probes, p.location.isFinite = true) ∧
      ∀ r, (m.run f settings).outcome = .ok r →
        r.root.x.isFinite = true ∧ r.root.y.isFinite = true ∧ r.root.y = f r.root.x ∧
          ∀ x ∈ r.stencil.points, x.isFinite = true := by
  -- of six methods, four are left
  have hother : m.algorithm ≠ .newton ∧ m.algorithm ≠ .multipoint := by
    rcases hm with h | h | h | h <;> rw [h] <;> decide
  have hstays := staysFinite hother.1 hother.2 f settings.tolerance
  rw [run_eq]
  refine ⟨fun p hp => ?_, fun r hr => ?_⟩
  · exact hstays.mem_probes_refine (fun _ => hasFinitePoints_of_start)
      (fun _ => isFinite_of_mem_probes_start) hp
  · have hr' := hstays.isFinite_report (fun _ => hasFinitePoints_of_start) hr
    exact ⟨hr'.root.location_finite, hr'.root.finite, hr'.root.value_eq, hr'.stencil⟩

/-- From `2 ^ 1023`, where the Newton step of `2 ^ 1010 / x` overflows, Chebyshev's method goes
    nowhere: it has evaluated three times at this point when it fails.  And from one and two the
    secant method finds the root of two. -/
theorem isFinite_of_run_overflow :
    (∃ x : Run RefineError Report,
      x = (chebyshev (fun _ => -Float.ofBits 0x0000004000000000) (fun _ => 0)
        (Float.ofBits 0x7fe0000000000000)).run (fun x => Float.ofBits 0x7f10000000000000 / x) {} ∧
      x.outcome.isOk = false ∧ x.probes.length = 3 ∧ ∀ p ∈ x.probes, p.location.isFinite = true) ∧
      ∃ r, ((secant 1 2).run (fun x => x * x - 2) {}).outcome = .ok r ∧
        r.root.x.isFinite = true ∧ ∀ x ∈ r.stencil.points, x.isFinite = true := by
  constructor
  · exact ⟨_, rfl, by decide +kernel, by decide +kernel,
      (isFinite_of_run _ _ _ (.inr (.inr (.inr rfl)))).1⟩
  · obtain ⟨r, hr⟩ := Run.exists_outcome_eq_ok
      (show ((secant 1 2).run (fun x => x * x - 2) {}).outcome.isOk = true by decide +kernel)
    obtain ⟨hroot, -, -, hstencil⟩ := (isFinite_of_run (secant 1 2) _ {} (.inl rfl)).2 r hr
    exact ⟨r, hr, hroot, hstencil⟩

end Refinement

end ScalarRoots
