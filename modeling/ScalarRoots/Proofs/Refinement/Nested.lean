import ScalarRoots.Proofs.Refinement.Intercept
import ScalarRoots.Proofs.Refinement.Running

/-!
# False position nests its brackets

As long as every intercept lies between the two ends of its bracket, the brackets of the method
of false position are nested: both ends stay between the two starts, no point beyond them is
ever looked at, and the computed distance of the ends never grows.  No intercept ever passes the
newer end of its bracket.  Whether it may pass the older end depends on the state alone: not
where the values are balanced, but otherwise it may fall out of the bracket, and even out of
the domain of the function.

## Key results

- `FalsePosition.between_of_visits`: the ends of every bracket lie between the starts
- `FalsePosition.gap_advance_le`: a step does not widen the bracket
- `FalsePosition.refine_nested`: a refinement as a whole
- `FalsePosition.exists_intercept_not_between`: an intercept outside of its bracket
-/

namespace ScalarRoots

open Binary64

/-! ## Brackets -/

namespace FalsePosition

/-- A step does not widen the bracket, if the intercept lies in it. -/
theorem gap_advance_le {s : TwoPoint} {next : Point Float} (holder : s.older.x.isFinite = true)
    (hnewer : s.newer.x.isFinite = true) (h : Between s.older.x s.newer.x next.x) :
    (advance s next).gap.abs ≤ s.gap.abs := by
  have hno := isNaN_of_isFinite holder
  have hnn := isNaN_of_isFinite hnewer
  unfold TwoPoint.gap
  rw [newer_advance]
  -- the intercept is one end of the new bracket, and the other is one of the two before
  rcases older_advance s next with hold | hold <;> rw [hold]
  · exact abs_sub_le_of_between holder hnewer (between_right hno hnn) h
  · exact abs_sub_le_of_between holder hnewer (between_left hno hnn) h

variable {f : Float → Float} {t : Tolerance} {s₀ : TwoPoint} {budget : Nat}

/-- Where an iteration goes on, the values at the ends have opposite signs. -/
theorem oppositeSigns_of_visits (h₀ : s₀.Encloses f) {done : Nat} {best : Point Float}
    {s : TwoPoint} (hvis : (scheme f t).Visits s₀ done best s) (hgo : s.criterion? t = none) :
    OppositeSigns s.older.y s.newer.y :=
  (encloses_of_visits h₀ hvis).oppositeSigns (TwoPoint.newer_ne_zero_of_criterion?_eq_none hgo)

/-- The ends of every bracket lie between those of the first one. -/
theorem between_of_visits (h₀ : s₀.Encloses f) (hx₀ : s₀.older.x.isNaN = false)
    (hx₁ : s₀.newer.x.isNaN = false)
    (hbal : ∀ done best s, (scheme f t).Visits s₀ done best s → done < budget →
      s.criterion? t = none → s.IsBalanced)
    {done : Nat} {best : Point Float} {s : TwoPoint} (hvis : (scheme f t).Visits s₀ done best s)
    (hle : done ≤ budget) :
    Between s₀.older.x s₀.newer.x s.older.x ∧ Between s₀.older.x s₀.newer.x s.newer.x := by
  -- Induction on the visit: a balanced state has its intercept between ends that lie between the
  -- starts.
  induction hvis with
  | start => exact ⟨between_left hx₀ hx₁, between_right hx₀ hx₁⟩
  | @moved done best s next hvis hgo hstep ih =>
    obtain ⟨holder, hnewer⟩ := ih (by omega)
    obtain ⟨p, hp, hmove⟩ := step_eq_ok.1 hstep
    obtain ⟨x, hx, hpoint⟩ := TwoPoint.interceptPoint_eq_ok.1 hp
    obtain ⟨rfl, -⟩ := evaluatePoint_eq_ok.1 hpoint
    cases hmove
    have hbetween := (hbal done best s hvis (by omega) hgo).between_intercept hx
      (oppositeSigns_of_visits h₀ hvis hgo)
    rw [newer_advance]
    refine ⟨?_, holder.trans hnewer hbetween⟩
    rcases older_advance s ⟨x, f x⟩ with hold | hold <;> rw [hold]
    · exact hnewer
    · exact holder

/-! ## Refinements -/

/-- The brackets of the method of false position are nested.  Take two distinct finite
    locations with finite values of opposite sign.  No intercept that an iteration goes to lies
    beyond the newer end of its bracket.  If the values at the state are balanced, then it does
    not lie beyond the older end either, and the bracket after the step is not wider than before.
    If they are balanced at every state that the iteration leaves within its budget, then the
    function is evaluated nowhere but between the two locations. -/
theorem refine_nested (f : Float → Float) (settings : Settings) (x₀ x₁ : Float)
    (hx₀ : x₀.isFinite = true) (hx₁ : x₁.isFinite = true)
    (hy₀ : (f x₀).isFinite = true) (hy₁ : (f x₁).isFinite = true)
    (hsign : OppositeSigns (f x₀) (f x₁)) :
    (∀ done best s,
      (scheme f settings.tolerance).Visits ⟨⟨x₀, f x₀⟩, ⟨x₁, f x₁⟩⟩ done best s →
        s.criterion? settings.tolerance = none → ∀ x, s.intercept = some x →
          ((s.older.x ≤ s.newer.x → x ≤ s.newer.x) ∧ (s.newer.x ≤ s.older.x → s.newer.x ≤ x)) ∧
            (s.IsBalanced →
              Between s.older.x s.newer.x x ∧ (advance s ⟨x, f x⟩).gap.abs ≤ s.gap.abs)) ∧
      ((∀ done best s,
        (scheme f settings.tolerance).Visits ⟨⟨x₀, f x₀⟩, ⟨x₁, f x₁⟩⟩ done best s →
          done < Algorithm.falsePosition.budget (settings.iterations.map (·.toNat)) →
            s.criterion? settings.tolerance = none → s.IsBalanced) →
        ∀ p ∈ (refine f settings x₀ x₁).probes, Between x₀ x₁ p.location) := by
  have h₀ : TwoPoint.Encloses f ⟨⟨x₀, f x₀⟩, ⟨x₁, f x₁⟩⟩ :=
    TwoPoint.encloses_of_oppositeSigns ⟨rfl, hy₀⟩ ⟨rfl, hy₁⟩ hsign
  have hn₀ := isNaN_of_isFinite hx₀
  have hn₁ := isNaN_of_isFinite hx₁
  refine ⟨fun done best s hvis hgo x hx => ?_, fun hbal p hp => ?_⟩
  · have hopposite := oppositeSigns_of_visits h₀ hvis hgo
    refine ⟨TwoPoint.intercept_newer hx hopposite, fun hs => ?_⟩
    have hbetween := hs.between_intercept hx hopposite
    obtain ⟨⟨holder, hnewer⟩, -⟩ := TwoPoint.finite_of_intercept hx
    exact ⟨hbetween, gap_advance_le holder hnewer hbetween⟩
  · -- a refinement evaluates at its starts and at the intercepts of the states it visits
    rcases mem_probes_refine hp with hstart | ⟨s₀, done, best, s, hs₀, hvis, hlt, hgo, hstep⟩
    · rcases TwoPoint.mem_probes_start hstart with hloc | hloc <;> rw [hloc]
      · exact between_left hn₀ hn₁
      · exact between_right hn₀ hn₁
    · obtain ⟨-, rfl, -⟩ := TwoPoint.start_eq_ok.1 hs₀
      obtain ⟨holder, hnewer⟩ := between_of_visits h₀ hn₀ hn₁ hbal hvis hlt.le
      have hbetween := (hbal done best s hvis hlt hgo).between_intercept (mem_probes_step hstep)
        (oppositeSigns_of_visits h₀ hvis hgo)
      exact holder.trans hnewer hbetween

/-- Two steps for the root of two, from zero and two. -/
theorem refine_nested_root_two :
    (refine (fun x => x * x - 2) { iterations := some ⟨2, by decide⟩ } 0 2).probes.length = 4 ∧
      ∀ p ∈ (refine (fun x => x * x - 2) { iterations := some ⟨2, by decide⟩ } 0 2).probes,
        Between 0 2 p.location := by
  refine ⟨by decide +kernel, (refine_nested (fun x => x * x - 2)
    { iterations := some ⟨2, by decide⟩ } 0 2 (by decide) (by decide) (by decide +kernel)
    (by decide +kernel) (by decide +kernel)).2 ?_⟩
  intro done best s hvis hlt hgo
  -- two states are left: the start, and that after the first step
  cases hvis with
  | start => decide +kernel
  | moved h hgo' hstep =>
    cases h with
    | start =>
      -- the first intercept is one
      obtain ⟨p, hp, hmove⟩ := step_eq_ok.1 hstep
      obtain ⟨x, hx, hpoint⟩ := TwoPoint.interceptPoint_eq_ok.1 hp
      obtain ⟨rfl, -⟩ := evaluatePoint_eq_ok.1 hpoint
      have hone : TwoPoint.intercept ⟨⟨0, 0 * 0 - 2⟩, ⟨2, 2 * 2 - 2⟩⟩ = some 1 := by decide +kernel
      obtain rfl : 1 = x := Option.some.inj (hone.symm.trans hx)
      cases hmove
      decide +kernel
    | moved h' _ _ => exact absurd hlt (by show ¬ _ + 1 + 1 < 2; omega)

/-- An intercept may lie outside of its bracket.  At `2 ^ (-54)` the function is slightly below
    zero, and at one so much above that the rise does not show it.  The gap between the two is
    rounded to one as well, and the line through the points seems to cross zero at zero.  There
    the function is undefined, and the refinement fails. -/
theorem exists_intercept_not_between :
    ∃ (f : Float → Float) (x₀ x₁ : Float),
      (x₀.isFinite = true ∧ x₁.isFinite = true ∧ (x₀ == x₁) = false) ∧
        ((f x₀).isFinite = true ∧ (f x₁).isFinite = true ∧ OppositeSigns (f x₀) (f x₁)) ∧
          (∃ x, TwoPoint.intercept ⟨⟨x₀, f x₀⟩, ⟨x₁, f x₁⟩⟩ = some x ∧ ¬ Between x₀ x₁ x) ∧
            (refine f {} x₀ x₁).outcome.isOk = false :=
  ⟨fun x => (x - Float.ofBits 0x3c90000000000000).sqrt - Float.ofBits 0x3c30000000000000,
    Float.ofBits 0x3c90000000000000, 1, by decide +kernel, by decide +kernel,
    ⟨0, by decide +kernel, by decide +kernel⟩, by decide +kernel⟩

end FalsePosition

end ScalarRoots
