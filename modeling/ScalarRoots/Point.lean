/-! # Points of a graph

A `Point` is a location together with the value of the function there.  Points
are generic in the kind of number, so that formulas over points can be read over
binary64 numbers and over exact ones alike.
-/

namespace ScalarRoots

/-- A location `x` and the value `y` of the function at `x`. -/
structure Point (α : Type) where
  x : α
  y : α
deriving Repr

namespace Point

/-- The residual of a point: how far its value is from zero. -/
def residual (p : Point Float) : Float := p.y.abs

/-- The point with the smaller residual; of two equally good ones the first. -/
def better (p q : Point Float) : Point Float := if q.residual < p.residual then q else p

/-- The better point is one of the two. -/
theorem better_eq_or (p q : Point Float) : p.better q = p ∨ p.better q = q := by
  unfold better
  split
  · exact .inr rfl
  · exact .inl rfl

/-- A smaller residual is better. -/
theorem better_of_lt {p q : Point Float} (h : q.residual < p.residual) : p.better q = q :=
  if_pos h

/-- Of equally good points the first is kept. -/
theorem better_of_not_lt {p q : Point Float} (h : ¬ q.residual < p.residual) :
    p.better q = p :=
  if_neg h

end Point

end ScalarRoots
