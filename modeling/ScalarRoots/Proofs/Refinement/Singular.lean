import ScalarRoots.Proofs.Binary64.Range
import ScalarRoots.Proofs.Refinement.Running

/-!
# Singular systems

Muller's method is stuck where the determinant of its three points is zero or not finite.  That
is where two of the points are equal, but also where the determinant leaves the range of binary64
numbers: the exact one may be smaller than the least positive number, or something on the way to
it too large.  There are no other such places: rounding alone makes no determinant vanish.

## Key results

- `Parabola.determinantTerms`: what the determinant is computed from
- `Parabola.DeterminantErrors`: the rounding errors on the way
- `Parabola.DeterminantErrors.toRat_ne_zero`: they do not make it vanish
- `Parabola.out_of_range`: where the determinant is zero or not finite
- `Muller.exists_stencil_of_isSingular`: a singular report tells where the method was stuck
- `Muller.isSingular_out_of_range`: which points are singular
-/

namespace ScalarRoots

open Binary64

namespace Parabola

/-- What the determinant is computed from, and the determinant itself, over exact numbers. -/
def determinantTerms (x₀ x₁ x₂ : ℚ) : List ℚ :=
  [x₂ - x₀, x₂ - x₁, x₁ - x₀, (x₂ - x₀) * (x₂ - x₁), determinant x₀ x₁ x₂]

/-- Without equal locations the exact determinant is not zero. -/
theorem determinant_eq_zero_iff {x₀ x₁ x₂ : ℚ} :
    determinant x₀ x₁ x₂ = 0 ↔ (x₂ = x₀ ∨ x₂ = x₁) ∨ x₁ = x₀ := by
  simp only [determinant, mul_eq_zero, sub_eq_zero]

/-! ## Rounding errors -/

variable {a b c : Float}

/-- The rounding errors on the way to a determinant that does not overflow. -/
structure DeterminantErrors (a b c : Float) : Prop where
  finite : (determinant a b c).isFinite = true
  outer : IsClose (toRat (c - a)) (toRat c - toRat a)
  newer : IsClose (toRat (c - b)) (toRat c - toRat b)
  older : IsClose (toRat (b - a)) (toRat b - toRat a)
  pair : IsCloseOrSmall (toRat ((c - a) * (c - b))) (toRat (c - a) * toRat (c - b))
  product : IsCloseOrSmall (toRat (determinant a b c)) (toRat ((c - a) * (c - b)) * toRat (b - a))

/-- Nothing overflows if nothing is too large over exact numbers. -/
theorem determinantErrors (ha : a.isFinite = true) (hb : b.isFinite = true)
    (hc : c.isFinite = true)
    (hlarge : ∀ q ∈ determinantTerms (toRat a) (toRat b) (toRat c), ¬ IsTooLarge q) :
    DeterminantErrors a b c := by
  simp only [determinantTerms, determinant, List.forall_mem_cons, IsTooLarge, not_lt] at hlarge
  obtain ⟨houter, hnewer, holder, hpair, hproduct, -⟩ := hlarge
  have hsafe := largeBound_le_safeBound
  obtain ⟨hfouter, heouter⟩ := toRat_sub hc ha (houter.trans hsafe)
  obtain ⟨hfnewer, henewer⟩ := toRat_sub hc hb (hnewer.trans hsafe)
  obtain ⟨hfolder, heolder⟩ := toRat_sub hb ha (holder.trans hsafe)
  have hbound := le_largeBound
  have hleast := leastPositive_le
  have hnonneg := mul_nonneg (abs_nonneg (toRat c - toRat a)) (abs_nonneg (toRat c - toRat b))
  rw [abs_mul] at hpair
  rw [abs_mul, abs_mul] at hproduct
  -- the errors take up a few percent, and there are fifty to spare
  have hcomputed := heouter.abs_mul_le henewer
  have hsafepair : |toRat (c - a) * toRat (c - b)| ≤ safeBound := by
    unfold safeBound
    linarith
  obtain ⟨hfpair, hepair⟩ := toRat_mul hfouter hfnewer hsafepair
  have hrounded : |toRat ((c - a) * (c - b))| ≤
      104 / 100 * (|toRat c - toRat a| * |toRat c - toRat b|) + 1 / 1000 := by
    have hadd := (abs_sub_abs_le_abs_sub _ _).trans hepair
    linarith
  have hsafeproduct : |toRat ((c - a) * (c - b)) * toRat (b - a)| ≤ safeBound := by
    rw [abs_mul]
    calc |toRat ((c - a) * (c - b))| * |toRat (b - a)|
        ≤ (104 / 100 * (|toRat c - toRat a| * |toRat c - toRat b|) + 1 / 1000) *
            (101 / 100 * |toRat b - toRat a|) := by
          gcongr
          exact heolder.abs_le
      _ = 10504 / 10000 * (|toRat c - toRat a| * |toRat c - toRat b| * |toRat b - toRat a|) +
            101 / 100000 * |toRat b - toRat a| := by ring
      _ ≤ safeBound := by
          unfold safeBound
          linarith
  obtain ⟨hfproduct, heproduct⟩ := toRat_mul hfpair hfolder hsafeproduct
  exact ⟨hfproduct, heouter, henewer, heolder, hepair, heproduct⟩

/-- Magnitudes `x`, `y` and `z` have a product below `least`, if their roundings `X`, `Y` and `Z`
    are multiplied to zero, by way of the rounding `P` of the first product. -/
private theorem mul_lt_of_vanishes {least x y z X Y Z P : ℚ} (hpos : 0 < least) (hy : 0 ≤ y)
    (hz : 0 ≤ z) (hxX : x ≤ 101 / 100 * X) (hyY : y ≤ 101 / 100 * Y) (hzZ : z ≤ 101 / 100 * Z)
    (hX : least ≤ X) (hY : least ≤ Y) (hzxy : z ≤ x + y)
    (hpair : X * Y ≤ P + (X * Y / 2 ^ 53 + least / 2)) (hP : P = 0 ∨ least ≤ P)
    (hproduct : P * Z ≤ P * Z / 2 ^ 53 + least / 2) : x * y * z < least := by
  have hX₀ : 0 ≤ X := hpos.le.trans hX
  have hY₀ : 0 ≤ Y := hpos.le.trans hY
  have hxy : x * y ≤ 103 / 100 * (X * Y) :=
    calc x * y ≤ (101 / 100 * X) * (101 / 100 * Y) := by gcongr
      _ ≤ 103 / 100 * (X * Y) := by linarith [mul_nonneg hX₀ hY₀]
  rcases hP with rfl | hP
  · -- then `X` and `Y` are about a half at most, and `z` is not much more than one
    have hsmall : X * Y ≤ 51 / 100 * least := by linarith
    have hX₁ : X ≤ 51 / 100 :=
      le_of_mul_le_mul_right ((mul_le_mul_of_nonneg_left hY hX₀).trans hsmall) hpos
    have hY₁ : Y ≤ 51 / 100 := by
      rw [mul_comm] at hsmall
      exact le_of_mul_le_mul_right ((mul_le_mul_of_nonneg_left hX hY₀).trans hsmall) hpos
    have hxy₁ : x * y ≤ 53 / 100 * least := by linarith
    have hz₁ : z ≤ 104 / 100 := by linarith
    calc x * y * z ≤ 53 / 100 * least * (104 / 100) := mul_le_mul hxy₁ hz₁ hz (by linarith)
      _ < least := by linarith
  · -- then `X * Y` is at most half as much again as `P`, and `P * Z` at most about a half
    have hxy₁ : x * y ≤ 156 / 100 * P := by linarith
    have hPZ : P * Z ≤ 51 / 100 * least := by linarith
    calc x * y * z ≤ 156 / 100 * P * (101 / 100 * Z) := mul_le_mul hxy₁ hzZ hz (by linarith)
      _ = 15756 / 10000 * (P * Z) := by ring
      _ < least := by linarith

/-- Rounding does not make a determinant vanish that is at least the least positive number. -/
theorem DeterminantErrors.toRat_ne_zero (h : DeterminantErrors a b c)
    (hlow : leastPositive ≤ |determinant (toRat a) (toRat b) (toRat c)|) :
    toRat (determinant a b c) ≠ 0 := by
  intro hzero
  have hpos := leastPositive_pos
  have hdistinct : (toRat c ≠ toRat a ∧ toRat c ≠ toRat b) ∧ toRat b ≠ toRat a := by
    simpa only [not_or] using determinant_eq_zero_iff.not.1 (abs_pos.1 (hpos.trans_le hlow))
  -- differences that are not zero are not rounded to zero
  have hleast {x y : Float} (hne : toRat x ≠ toRat y)
      (hclose : IsClose (toRat (x - y)) (toRat x - toRat y)) : leastPositive ≤ |toRat (x - y)| :=
    leastPositive_le_abs (hclose.eq_zero_iff.not.2 (sub_ne_zero.2 hne))
  have hsum : |toRat b - toRat a| ≤ |toRat c - toRat a| + |toRat c - toRat b| := by
    rw [← sub_sub_sub_cancel_left (toRat a) (toRat b) (toRat c)]
    exact abs_sub _ _
  have hpair := (abs_sub_abs_le_abs_sub _ _).trans ((abs_sub_comm _ _).trans_le h.pair)
  rw [sub_le_iff_le_add', abs_mul] at hpair
  have hproduct := h.product
  rw [hzero, IsCloseOrSmall, zero_sub, abs_neg, abs_mul] at hproduct
  have hlt := mul_lt_of_vanishes hpos (abs_nonneg _) (abs_nonneg _) h.outer.le_abs h.newer.le_abs
    h.older.le_abs (hleast hdistinct.1.1 h.outer) (hleast hdistinct.1.2 h.newer) hsum hpair ?_
    hproduct
  · rw [← abs_mul, ← abs_mul] at hlt
    exact absurd hlow (not_le.2 hlt)
  · by_cases hP : toRat ((c - a) * (c - b)) = 0
    · exact .inl (abs_eq_zero.2 hP)
    · exact .inr (leastPositive_le_abs hP)

/-- Points with a determinant that is zero or not finite have two equal locations, or a
    determinant that is out of range over exact numbers. -/
theorem out_of_range (ha : a.isFinite = true) (hb : b.isFinite = true) (hc : c.isFinite = true)
    (h : (determinant a b c == 0) = true ∨ (determinant a b c).isFinite = false) :
    ((a == b) = true ∨ (a == c) = true ∨ (b == c) = true) ∨
      IsTooSmall (determinant (toRat a) (toRat b) (toRat c)) ∨
      ∃ q ∈ determinantTerms (toRat a) (toRat b) (toRat c), IsTooLarge q := by
  by_cases hlarge : ∃ q ∈ determinantTerms (toRat a) (toRat b) (toRat c), IsTooLarge q
  · exact .inr (.inr hlarge)
  push Not at hlarge
  have herrors := determinantErrors ha hb hc hlarge
  -- so the determinant is finite, and it is zero
  have hzero : toRat (determinant a b c) = 0 := by
    rcases h with hzero | hfin
    · rw [toRat_of_beq hzero]
      exact toRat_eq_zero_iff.2 units_zero
    · exact absurd herrors.finite (Bool.eq_false_iff.1 hfin)
  have hlow := mt herrors.toRat_ne_zero (not_not.2 hzero)
  by_cases hexact : determinant (toRat a) (toRat b) (toRat c) = 0
  · refine .inl ?_
    rcases determinant_eq_zero_iff.1 hexact with (hca | hcb) | hba
    · exact .inr (.inl (beq_of_toRat ha hc hca.symm))
    · exact .inr (.inr (beq_of_toRat hb hc hcb.symm))
    · exact .inl (beq_of_toRat ha hb hba.symm)
  · exact .inr (.inl ⟨hexact, not_le.1 hlow⟩)

end Parabola

/-! ## Runs -/

namespace Muller

/-- A singular report has three finite points in its stencil that do not determine a parabola. -/
theorem exists_stencil_of_isSingular {f : Float → Float} {settings : Settings}
    {x₀ x₁ x₂ : Float} {r : Report} (h : (refine f settings x₀ x₁ x₂).outcome = .ok r)
    (hr : r.isSingular = true) :
    ∃ s : ThreePoint, s.IsFinite f ∧ parabola? s = none ∧
      r.stencil = .triple s.oldest.x s.middle.x s.newest.x := by
  obtain ⟨s₀, fin, _, hstart, hends, rfl⟩ := exists_ends_of_refine h
  cases hends with
  | met _ _ _ => cases hr
  | exhausted _ _ => cases hr
  | accepted _ _ _ _ => cases hr
  | stuck hvis _ _ hstep =>
    refine ⟨_, isFinite_of_visits (isFinite_of_start hstart) hvis, ?_, rfl⟩
    rcases step_eq_ok.1 hstep with ⟨hnone, -⟩ | ⟨_, _, _, -, -, -, -, hmoved⟩
    · exact hnone
    · cases hmoved

/-- Where Muller's method reports a singular system, two of the three points in the stencil are
    equal, or the determinant is out of range: over exact numbers it is smaller than the least
    positive number, though not zero, or larger than half of where the finite numbers end, or one
    of the differences is as large as that, or the product of the first two. -/
theorem isSingular_out_of_range (f : Float → Float) (settings : Settings) (x₀ x₁ x₂ : Float)
    (r : Report) (h : (refine f settings x₀ x₁ x₂).outcome = .ok r) (hr : r.isSingular = true) :
    ∃ a b c, r.stencil = .triple a b c ∧
      (((a == b) = true ∨ (a == c) = true ∨ (b == c) = true) ∨
        IsTooSmall (Parabola.determinant (toRat a) (toRat b) (toRat c)) ∨
        ∃ q ∈ Parabola.determinantTerms (toRat a) (toRat b) (toRat c), IsTooLarge q) := by
  obtain ⟨s, hs, hnone, hstencil⟩ := exists_stencil_of_isSingular h hr
  exact ⟨_, _, _, hstencil, Parabola.out_of_range hs.oldest.location_finite
    hs.middle.location_finite hs.newest.location_finite (parabola?_eq_none.1 hnone)⟩

/-- With `x * x - 2` from one, one and two, there is no parabola: two of the points are equal. -/
theorem isSingular_out_of_range_coinciding :
    ∃ r, (refine (fun x => x * x - 2) {} 1 1 2).outcome = .ok r ∧ r.isSingular = true ∧
      ∃ a b c, r.stencil = .triple a b c ∧
        (((a == b) = true ∨ (a == c) = true ∨ (b == c) = true) ∨
          IsTooSmall (Parabola.determinant (toRat a) (toRat b) (toRat c)) ∨
          ∃ q ∈ Parabola.determinantTerms (toRat a) (toRat b) (toRat c), IsTooLarge q) := by
  obtain ⟨r, hr, hsingular⟩ := exists_report_of_any (p := Report.isSingular)
    (show (refine (fun x => x * x - 2) {} 1 1 2).outcome.toOption.any _ = true by decide +kernel)
  exact ⟨r, hr, hsingular, isSingular_out_of_range _ _ _ _ _ r hr hsingular⟩

/-- Distinct points can be singular.  The line `2 ^ 400 x - 4` has its zero at `2 ^ (-398)`, but
    the determinant of `0`, `2 ^ (-400)` and `2 ^ (-399)` is `2 ^ (-1199)`, which is rounded to
    zero. -/
theorem isSingular_underflow :
    ∃ r, (refine (fun x => Float.ofBits 0x58f0000000000000 * x - 4) {} 0
        (Float.ofBits 0x26f0000000000000) (Float.ofBits 0x2700000000000000)).outcome = .ok r ∧
      r.isSingular = true ∧ ∃ a b c, r.stencil = .triple a b c ∧
        (a.isFinite = true ∧ b.isFinite = true ∧ c.isFinite = true) ∧
        (a == b) = false ∧ (a == c) = false ∧ (b == c) = false := by
  obtain ⟨r, hr, hsingular⟩ := exists_report_of_any
    (p := fun r => r.isSingular &&
      r.stencil = .triple 0 (Float.ofBits 0x26f0000000000000) (Float.ofBits 0x2700000000000000))
    (show (refine (fun x => Float.ofBits 0x58f0000000000000 * x - 4) {} 0
        (Float.ofBits 0x26f0000000000000)
        (Float.ofBits 0x2700000000000000)).outcome.toOption.any _ = true by decide +kernel)
  rw [Bool.and_eq_true, decide_eq_true_iff] at hsingular
  exact ⟨r, hr, hsingular.1, _, _, _, hsingular.2, by decide +kernel⟩

end Muller

end ScalarRoots
