import ScalarRoots.Refinement.TwoPoint
import ScalarRoots.Sign

/-! # The method of false position

Each step goes to the zero of the line through the two ends of a bracket.  The
new point always becomes the newest end; the other end is the one that keeps a
sign change between the two.

Main statements:

* `newer_advance`        the new point becomes the newest end
* `older_advance`        the other end is one of the two there were
-/

namespace ScalarRoots.FalsePosition

/-- The bracket after a new point: when the sign changes between it and the newest
    end, that end is kept, and otherwise the other one. -/
def advance (s : TwoPoint) (next : Point Float) : TwoPoint :=
  -- signs are compared as bits, as in a test of a span
  match Verdict.ofValues next.y s.newer.y with
  | .brackets => ⟨s.newer, next⟩
  | _ => ⟨s.older, next⟩

/-- The new point is the newer one of the bracket. -/
@[simp] theorem newer_advance (s : TwoPoint) (next : Point Float) :
    (advance s next).newer = next := by
  unfold advance
  split <;> rfl

/-- The other end is one of the two before. -/
theorem older_advance (s : TwoPoint) (next : Point Float) :
    (advance s next).older = s.newer ∨ (advance s next).older = s.older := by
  unfold advance
  split
  · exact .inl rfl
  · exact .inr rfl

/-- Goes to the intercept and keeps a sign change. -/
def step (f : Float → Float) (number : Nat) (s : TwoPoint) :
    Run RefineError (Advance TwoPoint) := do
  let next ← s.interceptPoint f
  let narrowed := advance s next
  log (.bracketIterate number narrowed.older.x narrowed.newer)
  return .moved narrowed

/-- The scheme of the method of false position. -/
def scheme (f : Float → Float) (t : Tolerance) : Scheme TwoPoint where
  algorithm := .falsePosition
  newest := TwoPoint.newer
  stencil s := .bracket s.older.x s.newer.x
  criterion? := TwoPoint.criterion? t
  step := step f

/-- Refines a root of `f` from two starts, which should enclose one. -/
def refine (f : Float → Float) (settings : Settings) (x₀ x₁ : Float) : Run RefineError Report :=
  ScalarRoots.refine (scheme f settings.tolerance) settings (TwoPoint.start f x₀ x₁)

end ScalarRoots.FalsePosition
