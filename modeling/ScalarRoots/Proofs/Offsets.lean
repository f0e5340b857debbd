import ScalarRoots.Offsets

/-!
# Offsets by number

A batch takes its offsets from a stream, one after the other.  Which offset a seed gets can
be told from its place in the batch: the seed with number `i` gets offset number `i`, or the
offsets with the numbers `2 * i` and `2 * i + 1` if it needs two.

## Key results

- `Offsets.nth`: the offsets by number
- `Offsets.nth_alternating`: two numbers in turn
- `Offsets.map_zip_take` / `Offsets.map_zip_takePairs`: which offsets a seed gets
-/

namespace ScalarRoots.Offsets

/-- The offset with a number, counted from zero at the beginning of the stream. -/
def nth (o : Offsets) (i : Nat) : Float := (o.stream.drop i).draw.1

/-! ## Offsets in turn -/

/-- After an even number of draws two numbers are in turn as at the beginning, and after an odd
    number the other way round. -/
theorem Stream.drop_alternating (next other : Float) (i : Nat) :
    drop i (.alternating next other) =
      if i % 2 = 0 then .alternating next other else .alternating other next := by
  induction i generalizing next other with
  | zero => rfl
  | succ i ih =>
    -- one offset on, the two numbers have changed places
    show drop i (.alternating other next) = _
    rw [ih]
    rcases Nat.mod_two_eq_zero_or_one i with h | h
    · have hodd : (i + 1) % 2 ≠ 0 := by omega
      rw [if_pos h, if_neg hodd]
    · have heven : (i + 1) % 2 = 0 := by omega
      rw [if_neg (by omega), if_pos heven]

/-- The first number has the even numbers, and the second one the odd. -/
theorem nth_alternating (first second : Float) (i : Nat) :
    (alternating first second).nth i = if i % 2 = 0 then first else second := by
  unfold nth
  rw [stream, Stream.drop_alternating]
  split <;> rfl

/-! ## Offsets of seeds -/

variable {α : Type}

/-- Each seed gets the offset that is drawn when its turn comes. -/
theorem Stream.map_zip_take (g : Float × Float → α) (seeds : List Float) (s : Stream) :
    (seeds.zip (s.take seeds.length)).map g =
      seeds.mapIdx fun i x => g (x, (s.drop i).draw.1) := by
  induction seeds generalizing s with
  | nil => rfl
  | cons x rest ih =>
    -- offset `i + 1` of the stream is offset `i` of what is left after the first
    rw [List.length_cons, take_succ, List.zip_cons_cons, List.map_cons, ih, List.mapIdx_cons]
    rfl

/-- And if each needs two of them, twice as many have been drawn by then. -/
theorem Stream.map_zip_takePairs (g : Float × Float × Float → α) (seeds : List Float)
    (s : Stream) :
    (seeds.zip (s.takePairs seeds.length)).map g =
      seeds.mapIdx fun i x => g (x, (s.drop (2 * i)).draw.1, (s.drop (2 * i + 1)).draw.1) := by
  induction seeds generalizing s with
  | nil => rfl
  | cons x rest ih =>
    rw [List.length_cons, takePairs_succ, List.zip_cons_cons, List.map_cons, ih,
      List.mapIdx_cons]
    rfl

/-- Seeds that need an offset each get the one with their own number. -/
theorem map_zip_take (o : Offsets) (g : Float × Float → α) (seeds : List Float) :
    (seeds.zip (o.stream.take seeds.length)).map g =
      seeds.mapIdx fun i x => g (x, o.nth i) :=
  Stream.map_zip_take g seeds o.stream

/-- Seeds that need two offsets each get the one with twice their own number, and the next. -/
theorem map_zip_takePairs (o : Offsets) (g : Float × Float × Float → α) (seeds : List Float) :
    (seeds.zip (o.stream.takePairs seeds.length)).map g =
      seeds.mapIdx fun i x => g (x, o.nth (2 * i), o.nth (2 * i + 1)) :=
  Stream.map_zip_takePairs g seeds o.stream

end ScalarRoots.Offsets
