import Mathlib
import ScalarRoots.Proofs.Binary64.Canonical

/-!
# Exact values

Counted in units of the least positive number, every finite binary64 number is a whole
number, and infinities have a place beyond all of those.  Comparisons look at signs,
exponents and significands in turn.  Numbers in canonical form are in the order of their
units, and so are binary64 numbers, NaN excepted.

## Key results

- `compare_eq`: canonical numbers compare as their units do
- `lt_iff` / `le_iff` / `beq_iff`: so binary64 numbers do, where neither is NaN
-/

namespace ScalarRoots.Binary64

open Float.Model Float.Model.UnpackedFloat

/-! ## Units -/

/-- The weight of the last bit of the greatest finite number. -/
def greatestExponent : Int := 971

/-- What infinity counts for: more than any significand with the greatest exponent. -/
def infinityUnits : Nat := 2 ^ 53 * 2 ^ (greatestExponent - leastExponent).toNat

/-- A number counted in units of the least positive one; NaN has no place of its own. -/
def unitsOf : UnpackedFloat → Int
  | .notANumber => 0
  | .zero _ => 0
  | .infinity s => s.apply infinityUnits
  | .finite s m e _ => s.apply (m * 2 ^ (e - leastExponent).toNat : Nat)

/-- A binary64 number counted in units of the least positive one. -/
def units (x : Float) : Int := unitsOf x.toModel.unpack

/-! ## Significands and exponents -/

/-- A finite number has fewer units than infinity. -/
theorem units_lt_infinity {s : Sign} {m : Nat} {e : Int} {hm : 0 < m}
    (h : IsCanonical (.finite s m e hm)) :
    m * 2 ^ (e - leastExponent).toNat < infinityUnits := by
  obtain ⟨hbits, -, hhigh, -⟩ := h
  have hexp : (e - leastExponent).toNat ≤ (greatestExponent - leastExponent).toNat := by
    simp only [greatestExponent]
    omega
  calc m * 2 ^ (e - leastExponent).toNat
      < 2 ^ 53 * 2 ^ (e - leastExponent).toNat :=
        Nat.mul_lt_mul_of_pos_right hbits (Nat.two_pow_pos _)
    _ ≤ infinityUnits := Nat.mul_le_mul_left _ (Nat.pow_le_pow_right (by decide) hexp)

/-- Of two finite numbers the one with the smaller exponent has fewer units, whatever the
    significands are: the leading bit of the other one is set. -/
private theorem units_lt_of_exponent_lt {s s' : Sign} {m m' : Nat} {e e' : Int} {hm : 0 < m}
    {hm' : 0 < m'} (h : IsCanonical (.finite s m e hm)) (h' : IsCanonical (.finite s' m' e' hm'))
    (hlt : e < e') :
    m * 2 ^ (e - leastExponent).toNat < m' * 2 ^ (e' - leastExponent).toNat := by
  obtain ⟨hbits, hlow, -, -⟩ := h
  obtain ⟨-, -, -, hlead | hleast⟩ := h'
  -- one exponent more makes up for all the places of a significand
  · have hexp : (e - leastExponent).toNat + 1 ≤ (e' - leastExponent).toNat := by omega
    calc m * 2 ^ (e - leastExponent).toNat
        < 2 ^ 53 * 2 ^ (e - leastExponent).toNat :=
          Nat.mul_lt_mul_of_pos_right hbits (Nat.two_pow_pos _)
      _ = 2 ^ 52 * 2 ^ ((e - leastExponent).toNat + 1) := by ring
      _ ≤ 2 ^ 52 * 2 ^ (e' - leastExponent).toNat :=
          Nat.mul_le_mul_left _ (Nat.pow_le_pow_right (by decide) hexp)
      _ ≤ m' * 2 ^ (e' - leastExponent).toNat := Nat.mul_le_mul_right _ hlead
  · omega

/-- The order by exponents first and then by significands is that of the units. -/
private theorem compare_magnitudes {s s' : Sign} {m m' : Nat} {e e' : Int} {hm : 0 < m}
    {hm' : 0 < m'} (h : IsCanonical (.finite s m e hm))
    (h' : IsCanonical (.finite s' m' e' hm')) :
    (compare e e').then (compare m m') =
      compare ((m * 2 ^ (e - leastExponent).toNat : Nat) : Int)
        (m' * 2 ^ (e' - leastExponent).toNat : Nat) := by
  -- the exponents decide, and the significands if they are equal
  rcases lt_trichotomy e e' with hlt | rfl | hgt
  · rw [compare_lt_iff_lt.2 hlt,
      compare_lt_iff_lt.2 (Int.ofNat_lt.2 (units_lt_of_exponent_lt h h' hlt))]
    rfl
  · -- the same power of two on both sides
    have hpos := Nat.two_pow_pos (e - leastExponent).toNat
    rw [compare_eq_iff_eq.2 rfl, Ordering.eq_then]
    rcases lt_trichotomy m m' with hlt | rfl | hgt
    · rw [compare_lt_iff_lt.2 hlt,
        compare_lt_iff_lt.2 (Int.ofNat_lt.2 (Nat.mul_lt_mul_of_pos_right hlt hpos))]
    · rw [compare_eq_iff_eq.2 rfl, compare_eq_iff_eq.2 rfl]
    · rw [compare_gt_iff_gt.2 hgt,
        compare_gt_iff_gt.2 (Int.ofNat_lt.2 (Nat.mul_lt_mul_of_pos_right hgt hpos))]
  · rw [compare_gt_iff_gt.2 hgt,
      compare_gt_iff_gt.2 (Int.ofNat_lt.2 (units_lt_of_exponent_lt h' h hgt))]
    rfl

/-! ## Comparisons -/

/-- Negation turns the order round. -/
private theorem compare_neg (x y : Int) : compare (-x) (-y) = compare y x := by
  rcases lt_trichotomy x y with hlt | rfl | hgt
  · rw [compare_gt_iff_gt.2 (neg_lt_neg hlt), compare_gt_iff_gt.2 hlt]
  · rw [compare_eq_iff_eq.2 rfl, compare_eq_iff_eq.2 rfl]
  · rw [compare_lt_iff_lt.2 (neg_lt_neg hgt), compare_lt_iff_lt.2 hgt]

/-- What the comparison of smaller with greater integers gives. -/
private theorem some_lt_eq {x y : Int} (h : x < y) : some Ordering.lt = some (compare x y) := by
  rw [compare_lt_iff_lt.2 h]

/-- And of greater with smaller ones. -/
private theorem some_gt_eq {x y : Int} (h : y < x) : some Ordering.gt = some (compare x y) := by
  rw [compare_gt_iff_gt.2 h]

/-- Canonical numbers compare as their units do. -/
theorem compare_eq {a b : UnpackedFloat} (ha : IsCanonical a) (hb : IsCanonical b)
    (hna : a.isNaN = false) (hnb : b.isNaN = false) :
    a.compare b = some (compare (unitsOf a) (unitsOf b)) := by
  have hinf : 0 < infinityUnits := Nat.mul_pos (Nat.two_pow_pos _) (Nat.two_pow_pos _)
  -- Signs and the kinds of the numbers decide, unless both are finite and on the same side.
  cases a with
  | notANumber => exact absurd hna (by decide)
  | infinity s =>
    cases b with
    | notANumber => exact absurd hnb (by decide)
    | infinity s' =>
      cases s <;> cases s' <;> simp only [UnpackedFloat.compare, unitsOf, Sign.apply]
      · rw [compare_eq_iff_eq.2 rfl]; rfl
      · exact some_lt_eq (by omega)
      · exact some_gt_eq (by omega)
      · rw [compare_eq_iff_eq.2 rfl]; rfl
    | zero s' =>
      cases s <;> simp only [UnpackedFloat.compare, unitsOf, Sign.apply]
      · exact some_lt_eq (by omega)
      · exact some_gt_eq (by omega)
    | finite s' m' e' hm' =>
      have hlt := units_lt_infinity hb
      cases s <;> cases s' <;> simp only [UnpackedFloat.compare, unitsOf, Sign.apply]
      · exact some_lt_eq (by omega)
      · exact some_lt_eq (by omega)
      · exact some_gt_eq (by omega)
      · exact some_gt_eq (by omega)
  | zero s =>
    cases b with
    | notANumber => exact absurd hnb (by decide)
    | infinity s' =>
      cases s' <;> simp only [UnpackedFloat.compare, unitsOf, Sign.apply]
      · exact some_gt_eq (by omega)
      · exact some_lt_eq (by omega)
    -- the two zeros are equal
    | zero s' => rfl
    | finite s' m' e' hm' =>
      have hpos := Nat.mul_pos hm' (Nat.two_pow_pos (e' - leastExponent).toNat)
      cases s' <;> simp only [UnpackedFloat.compare, unitsOf, Sign.apply]
      · exact some_gt_eq (by omega)
      · exact some_lt_eq (by omega)
  | finite s m e hm =>
    have hpos := Nat.mul_pos hm (Nat.two_pow_pos (e - leastExponent).toNat)
    cases b with
    | notANumber => exact absurd hnb (by decide)
    | infinity s' =>
      have hlt := units_lt_infinity ha
      cases s <;> cases s' <;> simp only [UnpackedFloat.compare, unitsOf, Sign.apply]
      · exact some_gt_eq (by omega)
      · exact some_lt_eq (by omega)
      · exact some_gt_eq (by omega)
      · exact some_lt_eq (by omega)
    | zero s' =>
      cases s <;> simp only [UnpackedFloat.compare, unitsOf, Sign.apply]
      · exact some_lt_eq (by omega)
      · exact some_gt_eq (by omega)
    | finite s' m' e' hm' =>
      have hpos' := Nat.mul_pos hm' (Nat.two_pow_pos (e' - leastExponent).toNat)
      cases s <;> cases s' <;>
        simp only [UnpackedFloat.compare, unitsOf, Sign.apply, compare_magnitudes ha hb]
      · -- of two negative numbers the one with more units is less
        rw [compare_neg, Int.compare_swap]
      · exact some_lt_eq (by omega)
      · exact some_gt_eq (by omega)

/-- NaN has no place in the order. -/
private theorem compare_eq_none {a b : UnpackedFloat} (h : a.isNaN = true ∨ b.isNaN = true) :
    a.compare b = none := by
  rcases h with h | h
  · cases a with
    | notANumber => rfl
    | _ => exact nomatch h
  · cases b with
    | notANumber => cases a <;> rfl
    | _ => exact nomatch h

/-- A comparison of binary64 numbers is that of their units, unless one of them is NaN. -/
private theorem compare_unpack (x y : Float) :
    x.toModel.unpack.compare y.toModel.unpack =
      if x.isNaN = false ∧ y.isNaN = false then some (compare (units x) (units y)) else none := by
  split
  · next h => exact compare_eq (isCanonical_unpack _) (isCanonical_unpack _) h.1 h.2
  · next h =>
    apply compare_eq_none
    -- one of the two is NaN
    by_cases hx : x.isNaN = false
    · exact .inr (Bool.not_eq_false _ ▸ fun hy => h ⟨hx, hy⟩)
    · exact .inl (Bool.not_eq_false _ ▸ hx)

/-- Being less is one result of the comparison. -/
theorem lt_iff_compare {x y : Float} :
    x < y ↔ x.toModel.unpack.compare y.toModel.unpack = some .lt := by
  show decide (x.toModel < y.toModel) = true ↔ _
  rw [decide_eq_true_iff]
  exact beq_iff_eq

/-- Being at most is any result but one. -/
theorem le_iff_compare {x y : Float} :
    x ≤ y ↔ (x.toModel.unpack.compare y.toModel.unpack).any (·.isLE) = true := by
  show decide (x.toModel ≤ y.toModel) = true ↔ _
  rw [decide_eq_true_iff]
  rfl

/-- A number is less than another when it has fewer units, NaN excepted. -/
theorem lt_iff {x y : Float} :
    x < y ↔ (x.isNaN = false ∧ y.isNaN = false) ∧ units x < units y := by
  rw [lt_iff_compare, compare_unpack]
  split
  · next h => rw [Option.some.injEq, compare_lt_iff_lt, and_iff_right h]
  · next h => exact ⟨nofun, fun hlt => absurd hlt.1 h⟩

/-- A number is at most another when it has no more units, NaN excepted. -/
theorem le_iff {x y : Float} :
    x ≤ y ↔ (x.isNaN = false ∧ y.isNaN = false) ∧ units x ≤ units y := by
  rw [le_iff_compare, compare_unpack]
  split
  · next h =>
    rw [Option.any_some, Ordering.isLE_iff_ne_gt, and_iff_right h]
    exact compare_le_iff_le
  · next h => exact ⟨nofun, fun hle => absurd hle.1 h⟩

/-- Equality is the third result. -/
theorem beq_iff_compare {x y : Float} :
    (x == y) = true ↔ x.toModel.unpack.compare y.toModel.unpack = some .eq := by
  show (x.toModel.unpack.compare y.toModel.unpack == some .eq) = true ↔ _
  exact beq_iff_eq

/-- Numbers are equal when they have equally many units, NaN excepted. -/
theorem beq_iff {x y : Float} :
    (x == y) = true ↔ (x.isNaN = false ∧ y.isNaN = false) ∧ units x = units y := by
  rw [beq_iff_compare, compare_unpack]
  split
  · next h => rw [Option.some.injEq, compare_eq_iff_eq, and_iff_right h]
  · next h => exact ⟨nofun, fun heq => absurd heq.1 h⟩

end ScalarRoots.Binary64
