import ScalarRoots.Proofs.Binary64.Order
import ScalarRoots.Sign

/-!
# Values of opposite sign

The verdict on two values compares their sign bits.  Here it is tied to what the signs
mean: that one value lies below zero and the other one above.

## Key results

- `oppositeSigns_iff`: opposite signs are different sign bits, where neither value is NaN
  or zero
- `OppositeSigns.split`: a third value has the opposite sign of one of the two
- `Verdict.ofValues_eq_brackets`: which values get the verdict of a sign change
-/

namespace ScalarRoots

open Binary64

/-- One of two values lies below zero and the other one above. -/
def OppositeSigns (y y' : Float) : Prop := y < 0 ∧ 0 < y' ∨ 0 < y ∧ y' < 0

instance (y y' : Float) : Decidable (OppositeSigns y y') :=
  inferInstanceAs (Decidable (y < 0 ∧ 0 < y' ∨ 0 < y ∧ y' < 0))

/-- Opposite signs are different sign bits, where neither value is NaN or zero. -/
theorem oppositeSigns_iff {y y' : Float} :
    OppositeSigns y y' ↔
      (y.isNaN = false ∧ (y == 0) = false) ∧ (y'.isNaN = false ∧ (y' == 0) = false) ∧
        signBit y ≠ signBit y' := by
  unfold OppositeSigns
  rw [lt_zero_iff, zero_lt_iff, lt_zero_iff, zero_lt_iff]
  cases signBit y <;> cases signBit y' <;> simp [and_assoc]

/-- A third value that is neither NaN nor zero has the opposite sign of one of the two. -/
theorem OppositeSigns.split {y y' z : Float} (h : OppositeSigns y y') (hz : z.isNaN = false)
    (hz' : (z == 0) = false) : OppositeSigns y z ∨ OppositeSigns z y' := by
  obtain ⟨hy, hy', hne⟩ := oppositeSigns_iff.1 h
  by_cases hzy : signBit y = signBit z
  · exact .inr (oppositeSigns_iff.2 ⟨⟨hz, hz'⟩, hy', hzy ▸ hne⟩)
  · exact .inl (oppositeSigns_iff.2 ⟨hy, ⟨hz, hz'⟩, hzy⟩)

/-- Two values get the verdict of a sign change when neither is NaN and their sign bits
    differ. -/
theorem Verdict.ofValues_eq_brackets {y y' : Float} :
    Verdict.ofValues y y' = .brackets ↔
      y.isNaN = false ∧ y'.isNaN = false ∧ signBit y ≠ signBit y' := by
  unfold Verdict.ofValues
  cases y.isNaN <;> cases y'.isNaN <;> cases signBit y <;> cases signBit y' <;> simp

/-- On values there are no other verdicts than a sign change and none. -/
theorem Verdict.ofValues_ne_doesNotBracket {y y' : Float} :
    Verdict.ofValues y y' ≠ .doesNotBracket ↔ Verdict.ofValues y y' = .brackets := by
  unfold Verdict.ofValues
  split
  · simp
  · split <;> simp

/-- Opposite signs bracket a root. -/
theorem OppositeSigns.ofValues {y y' : Float} (h : OppositeSigns y y') :
    Verdict.ofValues y y' = .brackets := by
  obtain ⟨⟨hy, -⟩, ⟨hy', -⟩, hne⟩ := oppositeSigns_iff.1 h
  exact Verdict.ofValues_eq_brackets.2 ⟨hy, hy', hne⟩

end ScalarRoots
