import ScalarRoots.Proofs.Binary64.Units

/-!
# The order of binary64 numbers

Comparisons are false as soon as one side is NaN, and the two zeros are equal.  Apart
from that they behave like those of a linear order, and the sign bit of a number that is
neither NaN nor zero says on which side of zero it lies.

## Key results

- `le_refl` / `le_trans` / `le_of_not_lt`: the laws of a linear order, with NaN excepted
- `abs_lt_of_beq_zero`: a zero is smaller in magnitude than any positive number
- `lt_zero_iff` / `zero_lt_iff`: which numbers lie below and above zero
-/

namespace ScalarRoots.Binary64

open Float.Model Float.Model.UnpackedFloat

/-! ## Numbers that are not NaN -/

/-- A finite number is not NaN. -/
theorem isNaN_of_isFinite {x : Float} (h : x.isFinite = true) : x.isNaN = false := by
  simp only [Float.isFinite, Float.isNaN, Float.Model.isFinite, Float.Model.isNaN] at *
  cases hx : x.toModel.unpack <;> rw [hx] at h <;> first | rfl | exact nomatch h

/-- A magnitude is NaN when the number is. -/
theorem isNaN_abs (x : Float) : x.abs.isNaN = x.isNaN := by
  simp only [Float.isNaN, Float.Model.isNaN, unpack_abs]
  cases x.toModel.unpack <;> rfl

/-! ## Comparisons -/

/-- Turning a comparison round swaps its result. -/
private theorem compare_swap (a b : UnpackedFloat) :
    b.compare a = (a.compare b).map Ordering.swap := by
  -- classes and signs decide, but for two finite numbers of one sign
  rcases a with ⟨_ | _⟩ | _ | ⟨_ | _⟩ | ⟨_ | _, m, e, h⟩ <;>
    rcases b with ⟨_ | _⟩ | _ | ⟨_ | _⟩ | ⟨_ | _, m', e', h'⟩ <;>
    first
    | rfl
    | simp only [UnpackedFloat.compare, Option.map_some, Ordering.swap_then,
        ← Int.compare_swap e e', ← Nat.compare_swap m m']

/-- A number that is not NaN is at most itself. -/
theorem le_refl {x : Float} (h : x.isNaN = false) : x ≤ x :=
  le_iff.2 ⟨⟨h, h⟩, Int.le_refl _⟩

/-- What is less is at most as large. -/
theorem le_of_lt {x y : Float} (h : x < y) : x ≤ y := by
  obtain ⟨hnan, hlt⟩ := lt_iff.1 h
  exact le_iff.2 ⟨hnan, Int.le_of_lt hlt⟩

/-- Comparisons can be chained, whatever stands in between. -/
theorem le_trans {x y z : Float} (h : x ≤ y) (h' : y ≤ z) : x ≤ z := by
  obtain ⟨⟨hx, -⟩, hxy⟩ := le_iff.1 h
  obtain ⟨⟨-, hz⟩, hyz⟩ := le_iff.1 h'
  exact le_iff.2 ⟨⟨hx, hz⟩, Int.le_trans hxy hyz⟩

/-- A chain that begins with a strict comparison is strict. -/
protected theorem lt_of_lt_of_le {x y z : Float} (h : x < y) (h' : y ≤ z) : x < z := by
  obtain ⟨⟨hx, -⟩, hxy⟩ := lt_iff.1 h
  obtain ⟨⟨-, hz⟩, hyz⟩ := le_iff.1 h'
  exact lt_iff.2 ⟨⟨hx, hz⟩, Int.lt_of_lt_of_le hxy hyz⟩

/-- So is a chain that ends with one. -/
protected theorem lt_of_le_of_lt {x y z : Float} (h : x ≤ y) (h' : y < z) : x < z := by
  obtain ⟨⟨hx, -⟩, hxy⟩ := le_iff.1 h
  obtain ⟨⟨-, hz⟩, hyz⟩ := lt_iff.1 h'
  exact lt_iff.2 ⟨⟨hx, hz⟩, Int.lt_of_le_of_lt hxy hyz⟩

/-- No number is below itself, NaN included. -/
protected theorem lt_irrefl (x : Float) : ¬ x < x := fun h => Int.lt_irrefl _ (lt_iff.1 h).2

/-- Of two numbers that are not NaN, one is less or the other at most it. -/
theorem le_of_not_lt {x y : Float} (hx : x.isNaN = false) (hy : y.isNaN = false)
    (h : ¬ x < y) : y ≤ x := by
  have hunits : ¬ units x < units y := fun hlt => h (lt_iff.2 ⟨⟨hx, hy⟩, hlt⟩)
  exact le_iff.2 ⟨⟨hy, hx⟩, Int.not_lt.1 hunits⟩

/-! ## Zero -/

/-- A number equals zero when it unpacks to one of the two zeros. -/
theorem beq_zero_eq_true {x : Float} :
    (x == 0) = true ↔ ∃ s, x.toModel.unpack = .zero s := by
  show UnpackedFloat.beq x.toModel.unpack (.zero .positive) = true ↔ _
  -- the two zeros are equal although their parts differ
  rw [beq_iff_ne_notANumber_and_eq]
  constructor
  · intro h
    obtain ⟨-, -, hpos | ⟨-, hneg⟩ | ⟨hneg, -⟩⟩ := h
    · exact ⟨.positive, hpos⟩
    · cases hneg
    · exact ⟨.negative, hneg⟩
  · intro h
    obtain ⟨s, hs⟩ := h
    rw [hs]
    cases s <;> simp

/-- A zero is smaller in magnitude than any positive number. -/
theorem abs_lt_of_beq_zero {x t : Float} (hx : (x == 0) = true) (ht : 0 < t) : x.abs < t := by
  obtain ⟨s, hs⟩ := beq_zero_eq_true.1 hx
  rw [lt_iff_compare] at *
  rw [unpack_abs, hs]
  exact ht

/-! ## Sign bits -/

/-- The sign bit of a word is the sign that it unpacks with. -/
private theorem ofBitVec_unpackSign (x : Float) :
    Sign.ofBitVec (@unpackSign Format.binary64 x.toModel.toBits.toBitVec) =
      if signBit x then .negative else .positive := by
  -- the sign field is one bit wide
  have hbit : @unpackSign Format.binary64 x.toModel.toBits.toBitVec =
      BitVec.ofBool (signBit x) := by
    ext i hi
    have h0 : i = 0 := by omega
    simp [unpackSign, signBit, Float.toBits, BitVec.msb_eq_getLsbD_last, h0]
    rfl
  rw [hbit]
  cases signBit x <;> rfl

/-- The sign of an unpacked number, unless it is NaN. -/
def sign? : UnpackedFloat → Option Sign
  | .notANumber => none
  | .infinity s => some s
  | .zero s => some s
  | .finite s .. => some s

/-- A number that is not NaN has the sign that its sign bit tells. -/
theorem sign?_unpack {x : Float} (hx : x.isNaN = false) :
    sign? x.toModel.unpack = some (if signBit x then .negative else .positive) := by
  rw [← ofBitVec_unpackSign]
  simp only [Float.isNaN, Float.Model.isNaN] at hx
  unfold Float.Model.unpack UnpackedFloat.unpack at *
  simp only at *
  -- a word with the greatest exponent is an infinity or NaN
  split at hx
  · split at hx
    · simp_all [sign?]
    · exact absurd hx (by decide)
  · split at hx
    · split at hx <;> simp_all [sign?]
    · simp_all [sign?]

/-- How a number compares with zero, read off its word. -/
private theorem compare_zero (x : Float) :
    x.toModel.unpack.compare (.zero .positive) =
      if x.isNaN then none
      else if x == 0 then some .eq
      else if signBit x then some .lt
      else some .gt := by
  -- NaN first, then zeros; all others compare by their sign
  cases hn : x.isNaN with
  | true =>
    simp only [Float.isNaN, Float.Model.isNaN] at hn
    cases hu : x.toModel.unpack <;> rw [hu] at hn <;> first | rfl | exact nomatch hn
  | false =>
    cases hz : x == 0 with
    | true =>
      obtain ⟨s, hs⟩ := beq_zero_eq_true.1 hz
      rw [hs]
      rfl
    | false =>
      have hsign := sign?_unpack hn
      rw [← Bool.not_eq_true, beq_zero_eq_true] at hz
      cases hu : x.toModel.unpack with
      | notANumber => rw [hu] at hsign; exact nomatch hsign
      | zero s => exact absurd ⟨s, hu⟩ hz
      | infinity s =>
        rw [hu] at hsign
        cases Option.some.inj hsign
        cases signBit x <;> rfl
      | finite s m e h =>
        rw [hu] at hsign
        cases Option.some.inj hsign
        cases signBit x <;> rfl

/-- Below zero are the numbers with a sign bit, NaN and zero excepted. -/
theorem lt_zero_iff {x : Float} :
    x < 0 ↔ x.isNaN = false ∧ (x == 0) = false ∧ signBit x = true := by
  rw [lt_iff_compare]
  show x.toModel.unpack.compare (.zero .positive) = _ ↔ _
  rw [compare_zero]
  cases x.isNaN <;> cases x == 0 <;> cases signBit x <;> simp

/-- Above zero are the numbers without a sign bit, NaN and zero excepted. -/
theorem zero_lt_iff {x : Float} :
    0 < x ↔ x.isNaN = false ∧ (x == 0) = false ∧ signBit x = false := by
  rw [lt_iff_compare, compare_swap]
  show (x.toModel.unpack.compare (.zero .positive)).map _ = _ ↔ _
  rw [compare_zero]
  cases x.isNaN <;> cases x == 0 <;> cases signBit x <;> simp

end ScalarRoots.Binary64
