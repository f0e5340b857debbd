import ScalarRoots.Proofs.Binary64.Monotone
import ScalarRoots.Proofs.Bracketing.Provenance

/-!
# How many halvings it takes

The number of halvings that bring a width down to a tolerance is computed from the difference of
two logarithms, rounded up.  Each of the logarithms is rounded, and so is the difference, and
together this makes less than one part in a trillion of the tolerance.  So the number is the
least one, unless some halved width is that close to the tolerance; then it may be one too few
or one too many.  A width that is not above the tolerance is not halved at all, if the logarithm
is monotone.

## Key results

- `halvingsBy`: the number of halvings, for any logarithm
- `abs_sub_log_le`: the error of the difference of logarithms
- `IsNearlyLeast`: what is left of being the least number
- `isNearlyLeast_halvingsBy` / `isLeast_halvingsBy_of_powersOfTwo` / `halvingsBy_eq_zero`: numbers
  of halvings
- `width_div_le_of_roundsToReach`: what the rounds of a search leave of an interval
- `halvingsBy_isLeast`: when a number of halvings is the least
- `exists_halving_missed`: a number that is too small
-/

namespace ScalarRoots

open Binary64

/-- The number of halvings as it comes from a logarithm. -/
def halvingsBy (log : Float → Float) (width tolerance : Float) : ℕ :=
  ceilToNat (log width - log tolerance)

/-- The number of halvings that is used is the one by the logarithm that is used. -/
theorem halvings_eq_halvingsBy (width tolerance : Float) :
    halvings width tolerance = halvingsBy log2 width tolerance := rfl

/-! ## The error of the difference -/

/-- The logarithms of two numbers and their difference are rounded by this much together. -/
def logError : ℚ := 3 / 2 ^ 42

/-- Numbers up to eleven binary places in front of the point have forty-two behind it. -/
theorem spacing_le {y : ℝ} (h : |y| ≤ 1074) : spacing y ≤ 1 / 2 ^ 42 := by
  -- a magnitude below `2 ^ 11` has its leading place at the tenth at most
  have hlog : Int.log 2 |y| ≤ 10 := by
    rcases (abs_nonneg y).eq_or_lt with hzero | hpos
    · rw [← hzero, Int.log_zero_right]
      decide
    · have hlt : |y| < ((2 : ℕ) : ℝ) ^ (11 : ℤ) := by
        norm_num
        linarith
      have := (Int.lt_zpow_iff_log_lt (by decide) hpos).1 hlt
      omega
  have hpow : (2 : ℝ) ^ (-42 : ℤ) = 1 / 2 ^ 42 := by norm_num
  rw [spacing, ← hpow]
  refine zpow_le_zpow_right₀ one_le_two (max_le (by omega) (by decide))

section Error

variable {log : Float → Float} (hlog : IsLog2 log) {width tolerance : Float}
  (hw : width.isFinite = true) (hw0 : 0 < toRat width)
  (ht : tolerance.isFinite = true) (ht0 : 0 < toRat tolerance)

include hlog hw hw0 in
/-- The logarithm of a finite positive number is off by little, and not large. -/
theorem abs_log_sub_le :
    |(toRat (log width) : ℝ) - Real.logb 2 (toRat width : ℝ)| ≤ 1 / 2 ^ 42 ∧
      |toRat (log width)| ≤ 1075 := by
  have hrange := abs_log_le hw hw0
  have hclose := (hlog.close width hw hw0).trans (spacing_le hrange)
  refine ⟨hclose, ?_⟩
  obtain ⟨hlow, hhigh⟩ := abs_le.1 hrange
  obtain ⟨hlow', hhigh'⟩ := abs_le.1 hclose
  have hreal : |(toRat (log width) : ℝ)| ≤ 1075 := by
    rw [abs_le]
    constructor <;> linarith
  exact_mod_cast hreal

include hlog hw hw0 ht ht0

/-- The difference of the logarithms, and how far it is from the exact one. -/
theorem abs_sub_log_le : (log width - log tolerance).isFinite = true ∧
    |toRat (log width - log tolerance)| ≤ 4096 ∧
    |(toRat (log width - log tolerance) : ℝ) -
      Real.logb 2 (toRat width / toRat tolerance : ℝ)| ≤ logError := by
  obtain ⟨hclose, hrange⟩ := abs_log_sub_le hlog hw hw0
  obtain ⟨hclose', hrange'⟩ := abs_log_sub_le hlog ht ht0
  have hexact : |toRat (log width) - toRat (log tolerance)| ≤ 2150 := by
    rw [abs_le] at *
    constructor <;> linarith
  -- the difference is far from infinity
  have hsafe : (2150 : ℚ) ≤ safeBound := by
    have hlarge : (2 : ℚ) ^ 12 ≤ largeBound := pow_le_pow_right₀ one_le_two (by decide)
    have := largeBound_le_safeBound
    linarith
  obtain ⟨hfin, -⟩ := toRat_sub (hlog.finite width hw hw0) (hlog.finite tolerance ht ht0)
    (hexact.trans hsafe)
  -- it is below `2 ^ 12`, so the last place weighs `2 ^ (-41)`
  have hround := (isClosest_sub (hlog.finite width hw hw0) (hlog.finite tolerance ht ht0)
    hfin).abs_sub_le_half (e := -41) (by decide) (hexact.trans (by norm_num))
  have hhalf : (2 : ℚ) ^ (-41 : ℤ) / 2 = 1 / 2 ^ 42 := by norm_num
  rw [hhalf] at hround
  refine ⟨hfin, ?_, ?_⟩
  · rw [abs_le] at *
    constructor <;> linarith
  · have hround := (Rat.cast_le (K := ℝ)).2 hround
    have hw' : (toRat width : ℝ) ≠ 0 := by exact_mod_cast hw0.ne'
    have ht' : (toRat tolerance : ℝ) ≠ 0 := by exact_mod_cast ht0.ne'
    -- two errors of the logarithms and one of the difference
    rw [Real.logb_div hw' ht', logError]
    push_cast at hround ⊢
    rw [abs_le] at *
    constructor <;> linarith

/-- The number of halvings is the difference rounded up, as it is far from being too large for a
    word. -/
theorem halvingsBy_eq_ceil :
    halvingsBy log width tolerance = ⌈toRat (log width - log tolerance)⌉₊ := by
  obtain ⟨hfin, hrange, -⟩ := abs_sub_log_le hlog hw hw0 ht ht0
  exact ceilToNat_eq hfin ((le_abs_self _).trans (hrange.trans (by norm_num)))

end Error

/-! ## From logarithms to halvings -/

/-- A small power of two is below its linear bound. -/
theorem two_rpow_le {error : ℝ} (h0 : 0 ≤ error) (h1 : error ≤ 1) : 2 ^ error ≤ 1 + error := by
  have hbernoulli := rpow_one_add_le_one_add_mul_self (by norm_num : (-1 : ℝ) ≤ 1) h0 h1
  rwa [one_add_one_eq_two, mul_one] at hbernoulli

/-- What a logarithm that is off by a little says about the number itself. -/
theorem le_of_log_le {ratio : ℝ} (hpos : 0 < ratio) {k : ℕ} {error : ℝ} (h0 : 0 ≤ error)
    (h1 : error ≤ 1) (h : Real.logb 2 ratio ≤ k + error) : ratio ≤ 2 ^ k * (1 + error) := by
  have hrpow := (Real.logb_le_iff_le_rpow one_lt_two hpos).1 h
  rw [Real.rpow_add two_pos, Real.rpow_natCast] at hrpow
  exact hrpow.trans (mul_le_mul_of_nonneg_left (two_rpow_le h0 h1) (by positivity))

/-- The same from the other side. -/
theorem lt_of_lt_log {ratio : ℝ} (hpos : 0 < ratio) {k : ℕ} {error : ℝ} (h0 : 0 ≤ error)
    (h1 : error ≤ 1) (h : k - error < Real.logb 2 ratio) : 2 ^ k * (1 - error) < ratio := by
  have hrpow := (Real.lt_logb_iff_rpow_lt one_lt_two hpos).1 h
  rw [Real.rpow_sub two_pos, Real.rpow_natCast] at hrpow
  have hroot : (0 : ℝ) < 2 ^ error := by positivity
  -- dividing by `1 + error` leaves at least as much as multiplying with `1 - error`
  have hinv : 1 - error ≤ 1 / 2 ^ error := by
    have hpow := two_rpow_le h0 h1
    rw [le_div_iff₀ hroot]
    nlinarith
  calc 2 ^ k * (1 - error) ≤ 2 ^ k * (1 / 2 ^ error) :=
        mul_le_mul_of_nonneg_left hinv (by positivity)
    _ = 2 ^ k / 2 ^ error := mul_one_div _ _
    _ < ratio := hrpow

/-- The numbers of halvings that bring a width down to a tolerance. -/
def sufficient (width tolerance : ℚ) : Set ℕ := {k | width / 2 ^ k ≤ tolerance}

/-- A number of halvings that is the least one, up to the error of the logarithms. -/
structure IsNearlyLeast (width tolerance : ℚ) (n : ℕ) : Prop where
  /-- So many halvings bring the width down to the tolerance, or just above it. -/
  reaches : width / 2 ^ n ≤ tolerance * (1 + logError)
  /-- Fewer leave it above the tolerance, or just below it. -/
  needed : ∀ k < n, tolerance * (1 - logError) < width / 2 ^ k

namespace IsNearlyLeast

variable {width tolerance : ℚ} {n : ℕ} (h : IsNearlyLeast width tolerance n)

include h

/-- It is the least number, unless some halved width is just at the tolerance. -/
theorem isLeast (hclear : ∀ k : ℕ, tolerance * logError < |width / 2 ^ k - tolerance|) :
    IsLeast (sufficient width tolerance) n := by
  constructor
  -- a width just above the tolerance would be too close to it
  · show width / 2 ^ n ≤ tolerance
    by_contra hlt
    have hgap := hclear n
    rw [abs_of_pos (by linarith)] at hgap
    linarith [h.reaches]
  · intro k (hk : width / 2 ^ k ≤ tolerance)
    by_contra hlt
    have hneeded := h.needed k (not_le.1 hlt)
    have hgap := hclear k
    rw [abs_of_nonpos (by linarith)] at hgap
    linarith

/-- There is a least number, and it is the next one at most. -/
theorem exists_isLeast (htolerance : 0 < tolerance) :
    ∃ least, IsLeast (sufficient width tolerance) least ∧ least ≤ n + 1 ∧ n ≤ least + 1 := by
  have hsmall : logError ≤ 1 / 2 := by norm_num [logError]
  have hhalf (k : ℕ) : width / 2 ^ (k + 1) = width / 2 ^ k / 2 := by
    rw [pow_succ, div_div]
  -- one more halving makes up for the error by far
  have hnext : n + 1 ∈ sufficient width tolerance := by
    show width / 2 ^ (n + 1) ≤ tolerance
    rw [hhalf]
    nlinarith [h.reaches]
  obtain ⟨least, hleast⟩ : ∃ least, IsLeast (sufficient width tolerance) least :=
    ⟨_, Nat.sInf_mem ⟨n + 1, hnext⟩, fun _ hk => Nat.sInf_le hk⟩
  refine ⟨least, hleast, hleast.2 hnext, ?_⟩
  by_contra hlt
  -- one halving after the least number the width is below half of the tolerance
  have hneeded := h.needed (least + 1) (not_le.1 hlt)
  have hreached : width / 2 ^ least ≤ tolerance := hleast.1
  rw [hhalf] at hneeded
  nlinarith

end IsNearlyLeast

section Halvings

variable {log : Float → Float} (hlog : IsLog2 log) {width tolerance : Float}
  (hw : width.isFinite = true) (ht : tolerance.isFinite = true)

include hlog hw ht

/-- Any such logarithm gives nearly the least number. -/
theorem isNearlyLeast_halvingsBy (hw0 : 0 < toRat width) (ht0 : 0 < toRat tolerance) :
    IsNearlyLeast (toRat width) (toRat tolerance) (halvingsBy log width tolerance) := by
  have hceil := halvingsBy_eq_ceil hlog hw hw0 ht ht0
  obtain ⟨hlow, hhigh⟩ := abs_le.1 (abs_sub_log_le hlog hw hw0 ht ht0).2.2
  have ht0' : (0 : ℝ) < toRat tolerance := by exact_mod_cast ht0
  have hratio : (0 : ℝ) < toRat width / toRat tolerance :=
    div_pos (by exact_mod_cast hw0) ht0'
  have hzero : (0 : ℝ) ≤ logError := by norm_num [logError]
  have hone : (logError : ℝ) ≤ 1 := by norm_num [logError]
  constructor
  · -- the rounded difference is not above the number, so the exact one is hardly above it
    have hle : toRat (log width - log tolerance) ≤ halvingsBy log width tolerance := by
      rw [hceil]
      exact Nat.le_ceil _
    have hle' : (toRat (log width - log tolerance) : ℝ) ≤ halvingsBy log width tolerance := by
      exact_mod_cast hle
    have hreal := le_of_log_le hratio hzero hone (by linarith :
      Real.logb 2 _ ≤ halvingsBy log width tolerance + logError)
    rw [div_le_iff₀ ht0'] at hreal
    rw [div_le_iff₀ (by positivity)]
    refine (Rat.cast_le (K := ℝ)).1 ?_
    push_cast
    linarith
  · -- and it is above every smaller number
    intro k hk
    rw [hceil, Nat.lt_ceil] at hk
    have hk' : (k : ℝ) < toRat (log width - log tolerance) := by exact_mod_cast hk
    have hreal := lt_of_lt_log hratio hzero hone (by linarith :
      (k : ℝ) - logError < Real.logb 2 _)
    rw [lt_div_iff₀ ht0'] at hreal
    rw [lt_div_iff₀ (by positivity)]
    refine (Rat.cast_lt (K := ℝ)).1 ?_
    push_cast
    linarith

/-- Between powers of two nothing is rounded. -/
theorem isLeast_halvingsBy_of_powersOfTwo {i j : ℤ} (hi : toRat width = 2 ^ i)
    (hj : toRat tolerance = 2 ^ j) :
    IsLeast (sufficient (toRat width) (toRat tolerance)) (halvingsBy log width tolerance) := by
  have hw0 : 0 < toRat width := hi ▸ zpow_pos two_pos i
  have ht0 : 0 < toRat tolerance := hj ▸ zpow_pos two_pos j
  have hfin := (abs_sub_log_le hlog hw hw0 ht ht0).1
  -- both logarithms are exact, and a difference of integers is not rounded
  have hdiff : toRat (log width - log tolerance) = (i - j : ℤ) := by
    have hclose := isClosest_sub (hlog.finite width hw hw0) (hlog.finite tolerance ht ht0) hfin
    have hexact : (i : ℚ) - j = (i - j : ℤ) * 2 ^ (0 : ℤ) := by
      rw [zpow_zero, mul_one, Int.cast_sub]
    rw [hlog.exact width i hw hi, hlog.exact tolerance j ht hj, hexact] at hclose
    have hbits : |i - j| ≤ 2 ^ 53 := by
      have hi' := abs_le.1 (abs_exponent_le hw hi)
      have hj' := abs_le.1 (abs_exponent_le ht hj)
      rw [abs_le]
      constructor <;> omega
    rw [hclose.eq hbits (by decide), zpow_zero, mul_one]
  have hnum : halvingsBy log width tolerance = (i - j).toNat := by
    rw [halvingsBy_eq_ceil hlog hw hw0 ht ht0, hdiff, Nat.ceil_intCast]
  -- `k` halvings are enough for the exponents to say so
  have hmem (k : ℕ) : k ∈ sufficient (toRat width) (toRat tolerance) ↔ i - k ≤ j := by
    show toRat width / 2 ^ k ≤ toRat tolerance ↔ _
    rw [hi, hj, ← zpow_natCast, ← zpow_sub₀ two_ne_zero, zpow_le_zpow_iff_right₀ one_lt_two]
  rw [hnum]
  constructor
  · rw [hmem]
    omega
  · intro k hk
    rw [hmem] at hk
    omega

/-- A width that is not above the tolerance needs no halving. -/
theorem halvingsBy_eq_zero (hw0 : 0 < toRat width) (ht0 : 0 < toRat tolerance)
    (hmono : IsMonotone log) (hle : width ≤ tolerance) : halvingsBy log width tolerance = 0 := by
  have hfinw := hlog.finite width hw hw0
  have hfint := hlog.finite tolerance ht ht0
  have hfin := (abs_sub_log_le hlog hw hw0 ht ht0).1
  have hlogs := (le_iff_toRat hfinw hfint).1
    (hmono width tolerance hw ht ((pos_iff_toRat hw).2 hw0) hle)
  have hclose := (isClosest_sub hfinw hfint hfin).neg
  -- the exact difference is not positive, and rounding keeps that
  have hneg := hclose.nonneg (by linarith)
  rw [halvingsBy_eq_ceil hlog hw hw0 ht ht0, Nat.ceil_eq_zero]
  linarith

end Halvings

/-- So does the one that is used. -/
theorem isNearlyLeast_halvings {width tolerance : Float} (hw : width.isFinite = true)
    (ht : tolerance.isFinite = true) (hw0 : 0 < toRat width) (ht0 : 0 < toRat tolerance) :
    IsNearlyLeast (toRat width) (toRat tolerance) (halvings width tolerance) := by
  rw [halvings_eq_halvingsBy]
  exact isNearlyLeast_halvingsBy isLog2_log2 hw ht hw0 ht0

/-- A search with a tolerance plans enough rounds to bring every interval down to it, or just above
    it, if the rounds are not limited and the width is not too large for a number. -/
theorem width_div_le_of_roundsToReach {t : Tolerance} {intervals : List Interval}
    (hcap : BracketSettings.roundsToReach t intervals < Algorithm.iterationCap) {i : Interval}
    (hi : i ∈ intervals) (hfin : i.width.isFinite = true) :
    toRat i.width / 2 ^ BracketSettings.roundsToReach t intervals ≤
      toRat t.bound * (1 + logError) := by
  obtain ⟨hlower, hupper, hlt⟩ := i.proper
  have hwidth : 0 < toRat i.width := by
    have hgap := sub_pos.2 ((lt_iff_toRat hlower hupper).1 hlt)
    have hclose : IsClosest (toRat i.width) (toRat i.upper - toRat i.lower) :=
      isClosest_sub hupper hlower hfin
    have hne : toRat i.width ≠ 0 := (isClose_sub hupper hlower hfin).eq_zero_iff.not.2 hgap.ne'
    exact (hclose.nonneg hgap.le).lt_of_ne' hne
  have hnear := isNearlyLeast_halvings hfin t.finite hwidth ((pos_iff_toRat t.finite).1 t.pos)
  -- the rounds are the greatest number of halvings, which this interval has no more of
  have hle : halvings i.width t.bound ≤ BracketSettings.roundsToReach t intervals := by
    have hmax := ((BracketSettings.foldl_max_le_iff _ 0 _).1 le_rfl).2 _
      (List.mem_map_of_mem (f := fun i : Interval => halvings i.width t.bound) hi)
    unfold BracketSettings.roundsToReach at hcap ⊢
    omega
  calc toRat i.width / 2 ^ BracketSettings.roundsToReach t intervals
      ≤ toRat i.width / 2 ^ halvings i.width t.bound :=
        div_le_div_of_nonneg_left hwidth.le (by positivity) (pow_le_pow_right₀ one_le_two hle)
    _ ≤ toRat t.bound * (1 + logError) := hnear.reaches

/-- The number of halvings is the least one if nothing is rounded, as between powers of two, and if
    no halved width is so close to the tolerance that the rounding of the logarithms matters.  If
    there is one, the number is off by one at most, and it comes as close to the tolerance as that
    from the wrong side. -/
theorem halvingsBy_isLeast {log : Float → Float} (hlog : IsLog2 log) {width tolerance : Float}
    (hw : width.isFinite = true) (hw0 : 0 < width) (ht : tolerance.isFinite = true)
    (ht0 : 0 < tolerance) :
    IsNearlyLeast (toRat width) (toRat tolerance) (halvingsBy log width tolerance) ∧
      ((∀ k : ℕ, toRat tolerance * logError < |toRat width / 2 ^ k - toRat tolerance|) →
        IsLeast (sufficient (toRat width) (toRat tolerance)) (halvingsBy log width tolerance)) ∧
      (∀ i j : ℤ, toRat width = 2 ^ i → toRat tolerance = 2 ^ j →
        IsLeast (sufficient (toRat width) (toRat tolerance)) (halvingsBy log width tolerance)) ∧
      (IsMonotone log → width ≤ tolerance → halvingsBy log width tolerance = 0) ∧
      ∃ least, IsLeast (sufficient (toRat width) (toRat tolerance)) least ∧
        least ≤ halvingsBy log width tolerance + 1 ∧
        halvingsBy log width tolerance ≤ least + 1 := by
  have hw1 := (pos_iff_toRat hw).1 hw0
  have ht1 := (pos_iff_toRat ht).1 ht0
  have hnear := isNearlyLeast_halvingsBy hlog hw ht hw1 ht1
  refine ⟨hnear, hnear.isLeast, ?_, ?_, hnear.exists_isLeast ht1⟩
  · intro i j hi hj
    exact isLeast_halvingsBy_of_powersOfTwo hlog hw ht hi hj
  · intro hmono hle
    exact halvingsBy_eq_zero hlog hw ht hw1 ht1 hmono hle

/-- Three comes below a half in three halvings, and a half is below three without any. -/
theorem halvings_isLeast_three :
    IsLeast (sufficient 3 (1 / 2)) (halvings (Float.ofNat 3) 0.5) ∧
      halvings 0.5 (Float.ofNat 3) = 0 := by
  obtain ⟨hfin, hthree⟩ := toRat_ofNat (n := 3) (by decide)
  obtain ⟨hfin', hhalf⟩ := toRat_half
  have hthree0 : 0 < Float.ofNat 3 := by decide +kernel
  have hhalf0 : (0 : Float) < 0.5 := by decide +kernel
  obtain ⟨-, hleast, -⟩ := halvingsBy_isLeast isLog2_log2 hfin hthree0 hfin' hhalf0
  obtain ⟨-, -, -, hzero, -⟩ := halvingsBy_isLeast isLog2_log2 hfin' hhalf0 hfin hthree0
  rw [hthree, hhalf] at hleast
  refine ⟨hleast fun k => ?_, hzero monotone_log2 (by decide +kernel)⟩
  -- two halvings leave three quarters, and three leave three eighths
  have herror : (1 / 2 : ℚ) * logError < 1 / 8 := by norm_num [logError]
  refine herror.trans_le (le_abs.2 ?_)
  rcases le_or_gt k 2 with hk | hk
  · have hpow : (2 : ℚ) ^ k ≤ 2 ^ 2 := pow_le_pow_right₀ one_le_two hk
    have hwidth : (3 : ℚ) / 2 ^ 2 ≤ 3 / 2 ^ k := by gcongr
    push_cast
    left
    linarith
  · have hpow : (2 : ℚ) ^ 3 ≤ 2 ^ k := pow_le_pow_right₀ one_le_two hk
    have hwidth : (3 : ℚ) / 2 ^ k ≤ 3 / 2 ^ 3 := by gcongr
    push_cast
    right
    linarith

/-- A width just above one is not brought down to `1 / 2 ^ 10` in ten halvings: its logarithm is
    too small to change ten when the two are added. -/
theorem exists_halving_missed : ∃ width tolerance : Float,
    width.isFinite = true ∧ tolerance.isFinite = true ∧ 0 < width ∧ 0 < tolerance ∧
      halvings width tolerance = 10 ∧ toRat tolerance < toRat width / 2 ^ 10 ∧
      ¬ IsLeast (sufficient (toRat width) (toRat tolerance)) (halvings width tolerance) := by
  have hten : halvings (.ofBits 0x3FF0000000000001) (.ofBits 0x3F50000000000000) = 10 := by
    decide +kernel
  -- compared in units, which are integers
  have hmissed : toRat (.ofBits 0x3F50000000000000) <
      toRat (.ofBits 0x3FF0000000000001) / 2 ^ 10 := by
    have hunits : units (.ofBits 0x3F50000000000000) * 2 ^ 10 <
        units (.ofBits 0x3FF0000000000001) := by decide +kernel
    rw [lt_div_iff₀ (by positivity), toRat, toRat, div_mul_eq_mul_div,
      div_lt_div_iff_of_pos_right unitsPerOne_pos]
    exact_mod_cast hunits
  refine ⟨.ofBits 0x3FF0000000000001, .ofBits 0x3F50000000000000, by decide, by decide,
    by decide +kernel, by decide +kernel, hten, hmissed, ?_⟩
  rw [hten]
  exact fun h => absurd hmissed (not_lt.2 h.1)

end ScalarRoots
