import Mathlib
import ScalarRoots.Binary64.Parts

/-!
# Unpacked numbers in canonical form

Arithmetic on binary64 numbers unpacks a word into a sign, a significand and an
exponent, works on those, and packs the result again.  What comes out of a word is
in canonical form, and canonical numbers survive packing.  So whatever an operation
does to the parts of a number can be read off the packed result.

## Key results

- `isCanonical_unpack`: a word unpacks to a canonical number
- `unpack_pack`: packing a canonical number loses nothing
- `ext_unpack`: a number is known by its parts
- `unpack_abs`: the magnitude of a number differs from it in its sign alone
-/

namespace ScalarRoots.Binary64

open Float.Model Float.Model.UnpackedFloat

/-- A significand has at most fifty-three bits, and exactly as many unless the
    exponent is the least one. -/
def IsCanonical : UnpackedFloat → Prop
  | .finite _ m e _ =>
    m < 2 ^ 53 ∧ leastExponent ≤ e ∧ e ≤ 971 ∧ (2 ^ 52 ≤ m ∨ e = leastExponent)
  | _ => True

/-! ## Reading words -/

/-- A one bit in front of other bits adds its weight to them. -/
theorem toNat_leading_one {n : Nat} (v : BitVec n) :
    (1#1 ++ v).toNat = 2 ^ n + v.toNat := by
  have h := Nat.two_pow_add_eq_or_of_lt v.isLt 1
  simpa [BitVec.toNat_append, Nat.shiftLeft_eq] using h.symm

/-- An exponent field that is not all ones is below 2047. -/
private theorem toNat_lt_of_ne_allOnes {v : BitVec 11} (h : v ≠ -1#11) : v.toNat < 2047 := by
  have hlt := v.isLt
  have hne : v.toNat ≠ 2047 := fun he => h (BitVec.eq_of_toNat_eq (by rw [he]; rfl))
  omega

/-- A field that is not zero has a positive value. -/
private theorem toNat_pos_of_ne_zero {n : Nat} {v : BitVec n} (h : v ≠ 0#n) : 0 < v.toNat := by
  have hne : v.toNat ≠ 0 := fun he => h (BitVec.eq_of_toNat_eq (by rw [he]; rfl))
  omega

/-- A word unpacks to a canonical number. -/
theorem isCanonical_unpack (x : Float.Model) : IsCanonical x.unpack := by
  unfold Float.Model.unpack UnpackedFloat.unpack
  simp only
  split
  · split <;> trivial
  · next hexp =>
    have hlt := toNat_lt_of_ne_allOnes hexp
    have hbits := (@unpackMantissa Format.binary64 x.toBits.toBitVec).isLt
    split
    · split
      · trivial
      · -- subnormal: the exponent is the least one
        next hzero hman =>
        refine ⟨?_, ?_, ?_, .inr ?_⟩ <;>
          simp only [hzero, Format.exponentBias, leastExponent, BitVec.toNat_zero] at * <;> omega
    · -- normal: the leading bit is set
      next hzero =>
      have hpos := toNat_pos_of_ne_zero hzero
      refine ⟨?_, ?_, ?_, .inl ?_⟩ <;>
        simp only [toNat_leading_one, Format.exponentBias, leastExponent] at * <;> omega

/-! ## Writing words -/

/-- A word with an exponent field between the extremes holds a normal number. -/
private theorem unpack_normal (s : Sign) {b : Nat} (m : BitVec 52) (hpos : 0 < b)
    (hlt : b < 2047) :
    UnpackedFloat.unpack Format.binary64
        (packComponents Format.binary64 s (BitVec.ofNat 11 b) m) =
      .finite s (2 ^ 52 + m.toNat) (b - 1075) (by omega) := by
  have hb : (BitVec.ofNat 11 b).toNat = b := by
    rw [BitVec.toNat_ofNat]
    omega
  have hzero : BitVec.ofNat 11 b ≠ 0#11 := fun h => by
    rw [h] at hb
    simp only [BitVec.toNat_zero] at hb
    omega
  have hones : BitVec.ofNat 11 b ≠ -1#11 := fun h => by
    rw [h] at hb
    have : (-1#11).toNat = 2047 := rfl
    omega
  simp only [UnpackedFloat.unpack, unpackMantissa_packComponents, unpackExponent_packComponents,
    unpackSign_packComponents, Sign.ofBitVec_toBitVec, toNat_leading_one, if_neg hzero,
    if_neg hones, hb]
  rfl

/-- A word with an exponent field of zero and a fraction holds a subnormal number. -/
private theorem unpack_subnormal (s : Sign) {m : BitVec 52} (hpos : 0 < m.toNat) :
    UnpackedFloat.unpack Format.binary64 (packComponents Format.binary64 s 0#11 m) =
      .finite s m.toNat leastExponent hpos := by
  have hm : m ≠ 0#52 := fun h => by
    rw [h] at hpos
    exact absurd hpos (by decide)
  simp only [UnpackedFloat.unpack, unpackMantissa_packComponents, unpackExponent_packComponents,
    unpackSign_packComponents, Sign.ofBitVec_toBitVec]
  rw [if_neg (by decide), if_pos trivial, dif_neg hm]
  rfl

/-- Packing a canonical number loses nothing. -/
theorem unpack_pack {u : UnpackedFloat} (h : IsCanonical u) :
    (Float.Model.pack u).unpack = u := by
  cases u with
  | notANumber => rfl
  | infinity s => cases s <;> rfl
  | zero s => cases s <;> rfl
  | finite s m e hm =>
    obtain ⟨hbits, hlow, hhigh, hform⟩ := h
    simp only [leastExponent] at hlow hform
    show UnpackedFloat.unpack Format.binary64
      (UnpackedFloat.pack Format.binary64 (.finite s m e hm)) = _
    -- `b` is the exponent field of the word
    obtain ⟨b, rfl⟩ : ∃ b : Nat, e = b - 1075 := ⟨(e + 1075).toNat, by omega⟩
    have hb : ((b : Int) - 1075 + Format.binary64.exponentBias + (52 : Nat)).toNat = b := by
      simp only [Format.exponentBias]
      omega
    have hfit : ¬ 2 ^ 11 ≤ b + 1 := by omega
    simp only [UnpackedFloat.pack, hb, if_neg hfit]
    by_cases hnormal : 2 ^ 52 ≤ m
    · have hlog : m.log2 + 1 = Format.binary64.mantissaBits := by
        rw [(Nat.log2_eq_iff (Nat.ne_of_gt hm)).2 ⟨hnormal, hbits⟩]
        rfl
      have hfraction : 2 ^ 52 + (BitVec.ofNat 52 m).toNat = m := by
        rw [BitVec.toNat_ofNat]
        omega
      rw [if_pos hlog, unpack_normal s _ (by omega) (by omega)]
      simp only [hfraction]
    · have hlog : ¬ m.log2 + 1 = Format.binary64.mantissaBits := fun hlog => by
        have hlead := Nat.log2_self_le (Nat.ne_of_gt hm)
        have hwidth : m.log2 = 52 := Nat.succ.inj hlog
        rw [hwidth] at hlead
        exact hnormal hlead
      have hfraction : (BitVec.ofNat 52 m).toNat = m := by
        rw [BitVec.toNat_ofNat]
        omega
      rw [if_neg hlog, unpack_subnormal s (by rw [hfraction]; exact hm)]
      simp only [hfraction, leastExponent, UnpackedFloat.finite.injEq, true_and]
      omega

/-- A word is known by its parts. -/
theorem pack_unpack (x : Float.Model) : Float.Model.pack x.unpack = x := by
  obtain ⟨bits, hvalid⟩ := x
  have hbits : UnpackedFloat.pack Format.binary64
      (UnpackedFloat.unpack Format.binary64 bits.toBitVec) = bits.toBitVec :=
    pack_unpack_of_valid hvalid
  simp only [Float.Model.pack, Float.Model.unpack, hbits]

/-- A number is known by its parts. -/
theorem ext_unpack {x y : Float} (h : x.toModel.unpack = y.toModel.unpack) : x = y := by
  obtain ⟨x⟩ := x
  obtain ⟨y⟩ := y
  have hpack := congrArg Float.Model.pack h
  rw [pack_unpack, pack_unpack] at hpack
  exact congrArg Float.ofModel hpack

/-! ## Magnitudes -/

/-- The magnitude of a number differs from it in its sign alone. -/
theorem unpack_abs (x : Float) : x.abs.toModel.unpack = x.toModel.unpack.abs := by
  refine unpack_pack ?_
  have h := isCanonical_unpack x.toModel
  cases hx : x.toModel.unpack with
  | finite s m e hm =>
    rw [hx] at h
    exact h
  | _ => trivial

end ScalarRoots.Binary64
