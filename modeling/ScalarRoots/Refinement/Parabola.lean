import ScalarRoots.Point

/-! # The parabola through three points

Formulas for the parabola `a (x - x₂)² + b (x - x₂) + c` through three points, the
newest of which is `x₂`, and for the distance from `x₂` to its nearest zero.  They
are written for any kind of number, so that they can be evaluated in binary64
arithmetic and read over exact numbers.

Main statements:

* `through_c`    the parabola has the value of the newest point there
-/

namespace ScalarRoots

/-- The parabola `a t² + b t + c`, where `t` is the distance from a base point. -/
structure Parabola (α : Type) where
  a : α
  b : α
  c : α
deriving Repr

namespace Parabola

variable {α : Type} [Sub α] [Mul α]

/-- The determinant of the system for `a` and `b`: zero when two of the locations
    coincide. -/
def determinant (x₀ x₁ x₂ : α) : α := (x₂ - x₀) * (x₂ - x₁) * (x₁ - x₀)

/-- The parabola through three points, with the newest one as its base point, by
    Cramer's rule. -/
def through [Div α] (p₀ p₁ p₂ : Point α) : Parabola α :=
  let det := determinant p₀.x p₁.x p₂.x
  let h₀ := p₀.x - p₂.x
  let h₁ := p₁.x - p₂.x
  let d₀ := p₀.y - p₂.y
  let d₁ := p₁.y - p₂.y
  { a := (d₁ * h₀ - d₀ * h₁) / det
    b := (d₀ * h₁ * h₁ - d₁ * h₀ * h₀) / det
    c := p₂.y }

/-- At the base point a parabola has the value of the newest point. -/
@[simp] theorem through_c [Div α] (p₀ p₁ p₂ : Point α) : (through p₀ p₁ p₂).c = p₂.y := rfl

/-- The discriminant `b² - 4 a c`; negative when there is no zero. -/
def discriminant [OfNat α 4] (q : Parabola α) : α := q.b * q.b - 4 * q.a * q.c

/-- The denominator of the nearest zero, for a given root of the discriminant: the
    sum or difference that does not cancel. -/
def denominator [Add α] [OfNat α 0] [LE α] [DecidableLE α] (q : Parabola α) (root : α) : α :=
  if 0 ≤ q.b then q.b + root else q.b - root

/-- The distance from the base point to the nearest zero, for a given root of the
    discriminant. -/
def nearestZero [Add α] [Div α] [Neg α] [OfNat α 0] [OfNat α 2] [LE α] [DecidableLE α]
    (q : Parabola α) (root : α) : α :=
  -2 * q.c / q.denominator root

end Parabola

end ScalarRoots
