import ScalarRoots.Offsets.Generator
import ScalarRoots.Settings

/-! # Offsets from a seed

Methods that start from two or three points get the others from the seed by
adding small offsets.  `Offsets` describes an endless sequence of them and
`Offsets.stream` starts it; every stream of the same offsets gives the same
values.

Main statements:

* `Stream.length_take`    taking `n` offsets gives `n` of them
* `Stream.take_succ`      they come one after the other
* `Stream.take_add`       taking in two goes is taking in one
* `ValidOffsets.ofOffsets_eq_ok`   what is accepted is kept unchanged
-/

namespace ScalarRoots

/-- A source of offsets. -/
inductive Offsets where
  /-- Pseudo-random multiples of `scale`, by factors above zero and at most one. -/
  | seeded (seed : UInt64) (scale : Float)
  /-- Two numbers in turn. -/
  | alternating (first second : Float)
deriving DecidableEq, Repr

/-- The part of a sequence of offsets that has not been drawn yet. -/
inductive Offsets.Stream where
  | seeded (generator : Generator) (scale : Float)
  | alternating (next other : Float)
deriving DecidableEq, Repr

namespace Offsets

/-- What is used when nobody says otherwise. -/
def default : Offsets := .seeded 0x5EED 0.1

instance : Inhabited Offsets := ⟨default⟩

/-- The sequence from its beginning. -/
def stream : Offsets → Stream
  | seeded seed scale => .seeded ⟨seed⟩ scale
  | alternating first second => .alternating first second

/-- Whether every offset is meant to move a seed: finite and not zero. -/
def isValid : Offsets → Bool
  | seeded _ scale => scale.isFinite && 0 < scale
  | alternating first second => first.isFinite && first != 0 && second.isFinite && second != 0

namespace Stream

/-- The next offset and what follows it.  The factor is a pseudo-random number
    below one taken from one, so it is never zero. -/
def draw : Stream → Float × Stream
  | seeded g scale =>
    let (u, g) := g.uniform
    (scale * (1 - u), seeded g scale)
  | alternating next other => (next, alternating other next)

/-- The next `n` offsets. -/
def take : Nat → Stream → List Float
  | 0, _ => []
  | n + 1, s => s.draw.1 :: take n s.draw.2

/-- What is left after `n` offsets. -/
def drop : Nat → Stream → Stream
  | 0, s => s
  | n + 1, s => drop n s.draw.2

/-- The next `n` pairs of offsets. -/
def takePairs : Nat → Stream → List (Float × Float)
  | 0, _ => []
  | n + 1, s => (s.draw.1, s.draw.2.draw.1) :: takePairs n s.draw.2.draw.2

@[simp] theorem take_zero (s : Stream) : s.take 0 = [] := rfl

/-- The first offset is the one that is drawn, and the others come after it. -/
@[simp] theorem take_succ (n : Nat) (s : Stream) :
    s.take (n + 1) = s.draw.1 :: s.draw.2.take n := rfl

/-- A stream never runs dry. -/
@[simp] theorem length_take (n : Nat) (s : Stream) : (s.take n).length = n := by
  induction n generalizing s with
  | zero => rfl
  | succ n ih => simp [ih]

/-- Taking in two goes is taking in one. -/
theorem take_add (m n : Nat) (s : Stream) :
    s.take (m + n) = s.take m ++ (s.drop m).take n := by
  -- Induction on the offsets of the first go.
  induction m generalizing s with
  | zero => simp [drop]
  | succ m ih => simp [Nat.succ_add, drop, ih]

@[simp] theorem takePairs_zero (s : Stream) : s.takePairs 0 = [] := rfl

/-- A pair is made of two offsets drawn one after the other. -/
@[simp] theorem takePairs_succ (n : Nat) (s : Stream) :
    s.takePairs (n + 1) = (s.draw.1, s.draw.2.draw.1) :: s.draw.2.draw.2.takePairs n := rfl

/-- There are as many pairs as were asked for. -/
@[simp] theorem length_takePairs (n : Nat) (s : Stream) : (s.takePairs n).length = n := by
  induction n generalizing s with
  | zero => rfl
  | succ n ih => simp [ih]

end Stream

end Offsets

/-- Offsets that were checked before use. -/
structure ValidOffsets where
  offsets : Offsets
  valid : offsets.isValid = true

namespace ValidOffsets

/-- The default offsets are valid. -/
def default : ValidOffsets := ⟨.default, by decide⟩

instance : Inhabited ValidOffsets := ⟨default⟩

/-- Accepts the valid offsets. -/
def ofOffsets (o : Offsets) : Except SettingError ValidOffsets :=
  if h : o.isValid = true then .ok ⟨o, h⟩ else .error .invalidOffsets

/-- What is accepted is kept unchanged. -/
theorem ofOffsets_eq_ok {o : Offsets} {v : ValidOffsets} (h : ofOffsets o = .ok v) :
    v.offsets = o := by
  unfold ofOffsets at h
  split at h
  · cases h; rfl
  · cases h

end ValidOffsets

end ScalarRoots
