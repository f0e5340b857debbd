/-! # Pseudo-random numbers in the unit interval

A word-mixing generator: the state advances by a fixed odd increment, and a word
is the new state multiplied by a masked copy of itself, the two halves of the
double-width product folded together.  `uniform` scales words of sixty-three bits
to numbers from zero up to one.

Main statements:

* `state_next`      the state advances by the increment, whatever word comes out
* `uniform_lt_one`  a draw is below one
-/

namespace ScalarRoots

/-- A generator of pseudo-random words; the seed is its first state. -/
structure Generator where
  state : UInt64
deriving DecidableEq, Repr

namespace Generator

/-- What the state advances by.  It is odd, so the state runs through all words. -/
def increment : UInt64 := 0x2d358dccaa6c78a5

/-- What sets the second factor apart from the first. -/
def mask : UInt64 := 0x8bb84b93962eacc9

/-- The word that a state gives. -/
def mix (state : UInt64) : UInt64 :=
  let product := state.toNat * (state ^^^ mask).toNat
  product.toUInt64 ^^^ (product >>> 64).toUInt64

/-- The next word. -/
def next (g : Generator) : UInt64 × Generator :=
  let state := g.state + increment
  (mix state, ⟨state⟩)

/-- The state advances by the increment, whatever word comes out. -/
@[simp] theorem state_next (g : Generator) : g.next.2.state = g.state + increment := rfl

/-- A word without its last bit, as a fraction of `2 ^ 63`.  The words nearest to
    `2 ^ 63` round up to one. -/
def fraction (word : UInt64) : Float := (word >>> 1).toFloat / 9223372036854775808

/-- The next fraction below one, drawn from at most `fuel` words. -/
def uniformWithin : (fuel : Nat) → Generator → Float × Generator
  | 0, g => (0, g)
  | fuel + 1, g =>
    let (word, g) := g.next
    let u := fraction word
    -- a fraction that was rounded up to one is drawn again
    if u < 1 then (u, g) else uniformWithin fuel g

/-- The next number from zero up to one.  The state runs through all `2 ^ 64`
    words, so that many draws meet an acceptable one. -/
def uniform (g : Generator) : Float × Generator := uniformWithin (Nat.pow 2 64) g

/-- Whether a draw is accepted or the words are used up, the fraction is below one. -/
theorem uniformWithin_lt_one (fuel : Nat) (g : Generator) : (uniformWithin fuel g).1 < 1 := by
  induction fuel generalizing g with
  | zero => show (0 : Float) < 1; decide
  | succ fuel ih =>
    simp only [uniformWithin]
    split
    · assumption
    · exact ih _

/-- A draw is below one. -/
theorem uniform_lt_one (g : Generator) : g.uniform.1 < 1 := uniformWithin_lt_one ..

end Generator

end ScalarRoots
