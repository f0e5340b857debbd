import ScalarRoots.Refinement.Chebyshev
import ScalarRoots.Refinement.FalsePosition
import ScalarRoots.Refinement.Muller
import ScalarRoots.Refinement.Multipoint
import ScalarRoots.Refinement.Newton
import ScalarRoots.Refinement.Secant

/-!
# The six refinements

A `Refinement` is one of the six methods with its starts and the derivatives it needs.
Seen this way the methods are members of one family, each given by a scheme and a start,
and what holds for the shared iteration can be stated for all of them at once.

## Key results

- `Refinement.run_eq`: every method runs its scheme from its start
- `Refinement.algorithm_scheme`: a scheme carries the name of its method
-/

namespace ScalarRoots

/-- A method for refining roots, with its starts and the derivatives it needs. -/
inductive Refinement where
  | newton (df : Float → Float) (x₀ : Float)
  | secant (x₀ x₁ : Float)
  | falsePosition (x₀ x₁ : Float)
  | muller (x₀ x₁ x₂ : Float)
  | chebyshev (df d2f : Float → Float) (x₀ : Float)
  | multipoint (df : Float → Float) (rule : MultipointRule) (x₀ : Float)

namespace Refinement

/-- The method. -/
def algorithm : Refinement → Algorithm
  | newton .. => .newton
  | secant .. => .secant
  | falsePosition .. => .falsePosition
  | muller .. => .muller
  | chebyshev .. => .chebyshev
  | multipoint .. => .multipoint

/-- Refines a root of `f`. -/
def run (f : Float → Float) (settings : Settings) : Refinement → Run RefineError Report
  | newton df x₀ => Newton.refine f df settings x₀
  | secant x₀ x₁ => Secant.refine f settings x₀ x₁
  | falsePosition x₀ x₁ => FalsePosition.refine f settings x₀ x₁
  | muller x₀ x₁ x₂ => Muller.refine f settings x₀ x₁ x₂
  | chebyshev df d2f x₀ => Chebyshev.refine f df d2f settings x₀
  | multipoint df rule x₀ => Multipoint.refine f df ⟨settings, rule⟩ x₀

/-! ## Schemes and starts -/

/-- How many points the method remembers. -/
def State : Refinement → Type
  | newton .. => OnePoint
  | secant .. => TwoPoint
  | falsePosition .. => TwoPoint
  | muller .. => ThreePoint
  | chebyshev .. => OnePoint
  | multipoint .. => OnePoint

/-- The scheme of the method. -/
def scheme (f : Float → Float) (t : Tolerance) : (m : Refinement) → Scheme m.State
  | newton df _ => Newton.scheme f df t
  | secant .. => Secant.scheme f t
  | falsePosition .. => FalsePosition.scheme f t
  | muller .. => Muller.scheme f t
  | chebyshev df d2f _ => Chebyshev.scheme f df d2f t
  | multipoint df rule _ => Multipoint.scheme f df rule t

/-- The start of the method. -/
def start (f : Float → Float) : (m : Refinement) → Run RefineError m.State
  | newton _ x₀ => OnePoint.start f x₀
  | secant x₀ x₁ => TwoPoint.start f x₀ x₁
  | falsePosition x₀ x₁ => TwoPoint.start f x₀ x₁
  | muller x₀ x₁ x₂ => Muller.start f x₀ x₁ x₂
  | chebyshev _ _ x₀ => OnePoint.start f x₀
  | multipoint _ _ x₀ => OnePoint.start f x₀

/-- Every method runs its scheme from its start. -/
theorem run_eq (m : Refinement) (f : Float → Float) (settings : Settings) :
    m.run f settings = refine (m.scheme f settings.tolerance) settings (m.start f) := by
  cases m <;> rfl

/-- The scheme of a method knows its name. -/
theorem algorithm_scheme (m : Refinement) (f : Float → Float) (t : Tolerance) :
    (m.scheme f t).algorithm = m.algorithm := by
  cases m <;> rfl

end Refinement

end ScalarRoots
