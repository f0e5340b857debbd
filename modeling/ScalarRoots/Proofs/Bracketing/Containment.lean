import ScalarRoots.Proofs.Binary64.Arithmetic
import ScalarRoots.Proofs.Bracketing.DepthFirst

/-!
# Bisection stays inside its intervals

The midpoint of a span is its lower end plus half its width.  The width, the half and the sum
are rounded one after another, and still the midpoint lies between the ends: half of a width
that was rounded up is at most the exact width, because no rounding goes beyond a power of
two.  So what is tracked lies within the interval that it comes from, and so does every point
at which the function is evaluated.

All this needs a width that is finite.  Ends far apart on both sides of zero have none, and
then the midpoint is infinite.

## Key results

- `roundUnits_half_le`: half of a rounded width
- `Span.units_midpoint` / `Span.midpoint_isWithin`: one midpoint
- `Span.HalvesTo.isWithin`: any number of halvings
- `mem_probes_findApproximations`: where a search evaluates the function
- `findApproximations_isWithin`: a search as a whole
- `exists_midpoint_not_isFinite`: a width that overflows
-/

namespace ScalarRoots

open Binary64

/-! ## Roundings -/

namespace Binary64

/-- Half of a whole number of units, rounded before and after, is at most that number. -/
theorem roundUnits_half_le {d : ℤ} (hd : 0 ≤ d) : roundUnits (roundUnits d / 2) ≤ d := by
  rcases hd.eq_or_lt with rfl | hpos
  · rw [Int.cast_zero, roundUnits_zero, Int.cast_zero, zero_div, roundUnits_zero]
  -- `2 ^ k` is the greatest power of two that is not beyond `d`
  obtain ⟨n, rfl⟩ := Int.eq_ofNat_of_zero_le hd
  have hn : n ≠ 0 := by omega
  set k := n.log2
  -- rounding does not go beyond the next power of two
  have hnext : roundUnits ((n : ℤ) : ℚ) ≤ 2 ^ (k + 1) := by
    have hlt : ((n : ℤ) : ℚ) ≤ 2 ^ (k + 1) := by exact_mod_cast (Nat.lt_log2_self (n := n)).le
    exact (roundUnits_mono hlt).trans (roundUnits_two_pow_le (k + 1))
  have hhalf : (roundUnits ((n : ℤ) : ℚ) : ℚ) / 2 ≤ 2 ^ k := by
    rw [div_le_iff₀ two_pos, ← pow_succ]
    exact_mod_cast hnext
  calc roundUnits (roundUnits ((n : ℤ) : ℚ) / 2) ≤ roundUnits (2 ^ k) := roundUnits_mono hhalf
    _ ≤ 2 ^ k := roundUnits_two_pow_le k
    _ ≤ n := by exact_mod_cast Nat.log2_self_le hn

end Binary64

/-! ## Spans within spans -/

namespace Span

/-- The bounds are in order, and between those of another span. -/
structure IsWithin (s t : Span) : Prop where
  lower_le : t.lower ≤ s.lower
  ordered : s.lower ≤ s.upper
  le_upper : s.upper ≤ t.upper

/-- A span within a span within a third one is within that. -/
theorem IsWithin.trans {s t u : Span} (hst : s.IsWithin t) (htu : t.IsWithin u) : s.IsWithin u :=
  ⟨le_trans htu.lower_le hst.lower_le, hst.ordered, le_trans hst.le_upper htu.le_upper⟩

/-- A span within one of finite width has a finite width. -/
theorem IsWithin.isFinite_width {s t : Span} (h : s.IsWithin t) (ht : t.width.isFinite = true) :
    s.width.isFinite = true := by
  obtain ⟨hupper, hlower⟩ := isFinite_of_isFinite_sub ht
  have hsl := isFinite_of_between hlower hupper h.lower_le (le_trans h.ordered h.le_upper)
  have hsu := isFinite_of_between hlower hupper (le_trans h.lower_le h.ordered) h.le_upper
  obtain ⟨-, hwidth⟩ := units_sub hupper hlower
  obtain ⟨hnan, hwidth'⟩ := units_sub hsu hsl
  -- a narrower span has a smaller exact width, and rounding keeps the order
  have hle : units s.upper - units s.lower ≤ units t.upper - units t.lower :=
    sub_le_sub (le_iff.1 h.le_upper).2 (le_iff.1 h.lower_le).2
  have hnonneg : 0 ≤ units s.upper - units s.lower := sub_nonneg.2 (le_iff.1 h.ordered).2
  refine isFinite_iff.2 ⟨hnan, ?_⟩
  show |units (s.upper - s.lower)| < _
  rw [hwidth', abs_of_nonneg (roundUnits_nonneg (by exact_mod_cast hnonneg))]
  calc roundUnits (units s.upper - units s.lower)
      ≤ roundUnits (units t.upper - units t.lower) := roundUnits_mono (by exact_mod_cast hle)
    _ = units t.width := hwidth.symm
    _ < infinityUnits := lt_of_abs_lt (isFinite_iff.1 ht).2

/-- Half of a finite width is finite, and at most the exact distance of the ends. -/
theorem units_halfWidth {s : Span} (hw : s.width.isFinite = true) (hle : s.lower ≤ s.upper) :
    ((s.upper - s.lower) * 0.5).isFinite = true ∧
      units ((s.upper - s.lower) * 0.5) =
        roundUnits (roundUnits (units s.upper - units s.lower : ℤ) / 2) ∧
      0 ≤ units ((s.upper - s.lower) * 0.5) ∧
      units ((s.upper - s.lower) * 0.5) ≤ units s.upper - units s.lower := by
  obtain ⟨hupper, hlower⟩ := isFinite_of_isFinite_sub hw
  obtain ⟨-, hunits⟩ := le_iff.1 hle
  have hwidth : units (s.upper - s.lower) = roundUnits (units s.upper - units s.lower : ℤ) := by
    rw [Int.cast_sub]
    exact (units_sub hupper hlower).2
  obtain ⟨hfin, hhalf⟩ := units_mul_half (x := s.upper - s.lower) hw
  rw [hwidth] at hhalf
  have hwidthNonneg : 0 ≤ roundUnits (units s.upper - units s.lower : ℤ) :=
    roundUnits_nonneg (by exact_mod_cast sub_nonneg.2 hunits)
  refine ⟨hfin, hhalf, ?_, ?_⟩
  · rw [hhalf]
    exact roundUnits_nonneg (div_nonneg (by exact_mod_cast hwidthNonneg) zero_le_two)
  · rw [hhalf]
    exact roundUnits_half_le (sub_nonneg.2 hunits)

/-- The midpoint in units: three roundings, one after another. -/
theorem units_midpoint {s : Span} (hw : s.width.isFinite = true) (hle : s.lower ≤ s.upper) :
    s.midpoint.isNaN = false ∧
      units s.midpoint =
        roundUnits (units s.lower +
          roundUnits (roundUnits (units s.upper - units s.lower : ℤ) / 2)) := by
  obtain ⟨-, hlower⟩ := isFinite_of_isFinite_sub hw
  obtain ⟨hfin, hhalf, -⟩ := units_halfWidth hw hle
  obtain ⟨hnan, hmid⟩ := units_add hlower hfin
  rw [hhalf] at hmid
  exact ⟨hnan, hmid⟩

/-- The midpoint of a span of finite width is finite and lies between its ends. -/
theorem midpoint_isWithin {s : Span} (hw : s.width.isFinite = true) (hle : s.lower ≤ s.upper) :
    s.midpoint.isFinite = true ∧ s.lower ≤ s.midpoint ∧ s.midpoint ≤ s.upper := by
  obtain ⟨hupper, hlower⟩ := isFinite_of_isFinite_sub hw
  obtain ⟨⟨hnl, hnu⟩, -⟩ := le_iff.1 hle
  obtain ⟨-, hhalf, hhalfNonneg, hhalfLe⟩ := units_halfWidth hw hle
  obtain ⟨hnm, hmid⟩ := units_midpoint hw hle
  rw [← hhalf] at hmid
  -- the exact sum lies between the ends, and the rounded one with it
  have hlow : units s.lower ≤ units s.midpoint := by
    have hsum : (units s.lower : ℚ) ≤ units s.lower + units ((s.upper - s.lower) * 0.5) :=
      le_add_of_nonneg_right (by exact_mod_cast hhalfNonneg)
    exact (units_le_roundUnits hlower hsum).trans_eq hmid.symm
  have hhigh : units s.midpoint ≤ units s.upper := by
    have hsum : (units s.lower : ℚ) + units ((s.upper - s.lower) * 0.5) ≤ units s.upper := by
      exact_mod_cast le_sub_iff_add_le'.1 hhalfLe
    exact hmid.trans_le (roundUnits_le_units hupper hsum)
  have hbelow : s.lower ≤ s.midpoint := le_iff.2 ⟨⟨hnl, hnm⟩, hlow⟩
  have habove : s.midpoint ≤ s.upper := le_iff.2 ⟨⟨hnm, hnu⟩, hhigh⟩
  exact ⟨isFinite_of_between hlower hupper hbelow habove, hbelow, habove⟩

/-- A midpoint that is finite comes from a finite width. -/
theorem isFinite_width_of_isFinite_midpoint {s : Span} (h : s.midpoint.isFinite = true) :
    s.width.isFinite = true :=
  (isFinite_of_isFinite_mul (isFinite_of_isFinite_add h).2).1

/-- The left half of a span of finite width lies within it. -/
theorem leftHalf_isWithin {s : Span} (hw : s.width.isFinite = true) (hle : s.lower ≤ s.upper) :
    s.leftHalf.IsWithin s := by
  obtain ⟨-, hbelow, habove⟩ := midpoint_isWithin hw hle
  exact ⟨le_refl (le_iff.1 hle).1.1, hbelow, habove⟩

/-- So does the right half. -/
theorem rightHalf_isWithin {s : Span} (hw : s.width.isFinite = true) (hle : s.lower ≤ s.upper) :
    s.rightHalf.IsWithin s := by
  obtain ⟨-, hbelow, habove⟩ := midpoint_isWithin hw hle
  exact ⟨hbelow, habove, le_refl (le_iff.1 hle).1.2⟩

/-- What a span halves to lies within it. -/
theorem HalvesTo.isWithin {s t : Span} (h : s.HalvesTo t) (hw : s.width.isFinite = true)
    (hle : s.lower ≤ s.upper) : t.IsWithin s := by
  -- Induction on the halvings: the part so far has a finite width, because it lies within the span,
  -- and so its halves lie within it.
  induction h with
  | self =>
    obtain ⟨⟨hnl, hnu⟩, -⟩ := le_iff.1 hle
    exact ⟨le_refl hnl, hle, le_refl hnu⟩
  | left _ ih => exact (leftHalf_isWithin (ih.isFinite_width hw) ih.ordered).trans ih
  | right _ ih => exact (rightHalf_isWithin (ih.isFinite_width hw) ih.ordered).trans ih

end Span

/-! ## Evaluations -/

/-- The test of a span looks at its ends. -/
theorem Span.mem_transcript_test {f : Float → Float} {s : Span} {p : Probe}
    (h : Event.probe p ∈ (s.test f).transcript) : p.location = s.lower ∨ p.location = s.upper := by
  have hends : p = ⟨.value, s.lower, f s.lower⟩ ∨ p = ⟨.value, s.upper, f s.upper⟩ := by
    by_cases hl : (f s.lower == 0) = true
    · exact .inl (by simpa [test, hl] using h)
    · by_cases hu : (f s.upper == 0) = true <;> simpa [test, hl, hu] using h
  rcases hends with rfl | rfl
  · exact .inl rfl
  · exact .inr rfl

/-- A round looks at the ends of both halves of a span. -/
theorem Span.mem_transcript_survivors {f : Float → Float} {s : Span} {p : Probe}
    (h : Event.probe p ∈ (s.survivors f).transcript) :
    ∃ t, s.HalvesTo t ∧ (p.location = t.lower ∨ p.location = t.upper) := by
  unfold survivors at h
  rw [Traced.transcript_bind] at h
  rcases List.mem_append.1 h with hleft | hright
  · exact ⟨_, .left .self, mem_transcript_test hleft⟩
  · split at hright
    · exact absurd hright List.not_mem_nil
    · rw [Traced.transcript_bind, Traced.transcript_pure, List.append_nil] at hright
      exact ⟨_, .right .self, mem_transcript_test hright⟩

/-- What a round records, it records for one of its spans. -/
theorem exists_of_mem_transcript_bisectAll {f : Float → Float} {spans : List Span} {e : Event}
    (h : e ∈ (bisectAll f spans).transcript) : ∃ s ∈ spans, e ∈ (s.survivors f).transcript := by
  induction spans with
  | nil => exact absurd h List.not_mem_nil
  | cons s rest ih =>
    simp only [bisectAll, Traced.transcript_bind, Traced.transcript_pure, List.append_nil,
      List.mem_append] at h
    rcases h with hhead | hrest
    · exact ⟨s, List.mem_cons_self, hhead⟩
    · obtain ⟨t, ht, hmem⟩ := ih hrest
      exact ⟨t, List.mem_cons_of_mem _ ht, hmem⟩

/-- Rounds look at the ends of what the spans at the start halve to. -/
theorem mem_transcript_bisectRounds {f : Float → Float} {total left : Nat} {spans : List Span}
    {p : Probe} (h : Event.probe p ∈ (bisectRounds f total left spans).transcript) :
    ∃ s ∈ spans, ∃ t, s.HalvesTo t ∧ (p.location = t.lower ∨ p.location = t.upper) := by
  -- Induction on the rounds: what a later round looks at comes from a survivor of the first.
  induction left generalizing spans with
  | zero => exact absurd h List.not_mem_nil
  | succ left ih =>
    rw [transcript_bisectRounds_succ, List.mem_append] at h
    rcases h with hround | hothers
    · obtain ⟨s, hs, hmem⟩ := exists_of_mem_transcript_bisectAll hround
      exact ⟨s, hs, Span.mem_transcript_survivors hmem⟩
    · obtain ⟨t, ht, u, htu, hend⟩ := ih ((List.mem_cons.1 hothers).resolve_left nofun)
      obtain ⟨s, hs, hst⟩ := exists_of_mem_bisectAll ht
      exact ⟨s, hs, u, (Span.halvesTo_of_mem_survivors hst).trans htu, hend⟩

/-- Approximations look at the midpoints of the spans that they stand for. -/
theorem mem_transcript_approximateAll {f : Float → Float} {digits : Nat} {spans : List Span}
    {p : Probe} (h : Event.probe p ∈ (approximateAll f digits spans).transcript) :
    ∃ s ∈ spans, p.location = s.midpoint := by
  induction spans with
  | nil => exact absurd h List.not_mem_nil
  | cons s rest ih =>
    simp only [approximateAll, Span.approximate, Traced.transcript_bind, transcript_probe,
      Traced.transcript_pure, List.append_nil, List.mem_append, List.mem_singleton,
      Event.probe.injEq] at h
    rcases h with rfl | hrest
    · exact ⟨s, List.mem_cons_self, rfl⟩
    · obtain ⟨t, ht, hloc⟩ := ih hrest
      exact ⟨t, List.mem_cons_of_mem _ ht, hloc⟩

/-- Bisection looks at the ends of what its intervals halve to. -/
theorem mem_transcript_bracketRoots {f : Float → Float} {digits rounds : Nat}
    {intervals : List Interval} {p : Probe}
    (h : Event.probe p ∈ (bracketRoots f digits rounds intervals).transcript) :
    ∃ i ∈ intervals, ∃ s, i.HalvesTo s ∧ (p.location = s.lower ∨ p.location = s.upper) := by
  simp only [bracketRoots, Traced.transcript_bind, transcript_log, Traced.transcript_pure,
    List.append_nil, List.mem_append, List.mem_singleton, reduceCtorEq, or_false] at h
  rcases h with hrounds | hmidpoints
  · obtain ⟨s, hs, hend⟩ := mem_transcript_bisectRounds hrounds
    obtain ⟨i, hi, rfl⟩ := List.mem_map.1 hs
    exact ⟨i, hi, hend⟩
  · -- a midpoint is an end of the left half
    obtain ⟨t, ht, hloc⟩ := mem_transcript_approximateAll hmidpoints
    obtain ⟨s, hs, hst⟩ := exists_ancestor_of_mem_bisectRounds ht
    obtain ⟨i, hi, rfl⟩ := List.mem_map.1 hs
    exact ⟨i, hi, t.leftHalf, hst.left, .inr hloc⟩

/-- So does a search, if it gets as far as that. -/
theorem mem_probes_findApproximations {f : Float → Float} {settings : BracketSettings}
    {intervals : List Interval} {p : Probe}
    (h : p ∈ (findApproximations f settings (intervals.map (·.toSpan))).probes) :
    ∃ i ∈ intervals, ∃ s, i.HalvesTo s ∧ (p.location = s.lower ∨ p.location = s.upper) := by
  unfold findApproximations Run.probes at h
  rw [Transcript.mem_probes, BracketSettings.plan_map] at h
  cases hrounds : (if intervals.isEmpty then .error .noIntervals else settings.roundsFor intervals :
      Except BracketError Nat) with
  | error e =>
    -- a request that is refused evaluates nowhere
    rw [hrounds, Except.map, Run.bind_of_error (Run.outcome_ofExcept _)] at h
    exact absurd h List.not_mem_nil
  | ok rounds =>
    rw [hrounds, Except.map, Run.bind_of_ok (Run.outcome_ofExcept _)] at h
    exact mem_transcript_bracketRoots h

/-! ## Searches -/

/-- Bisection stays inside the intervals that it starts from.  The midpoint of an interval is
    finite exactly when its width is.  Every span that is tracked after some rounds comes from
    one of the intervals, and every point at which a search evaluates the function is an end of
    such a span.  If the width of that interval is finite, then the span lies within it, with a
    finite midpoint, and so does the point. -/
theorem findApproximations_isWithin (f : Float → Float) (settings : BracketSettings)
    (intervals : List Interval) :
    (∀ i ∈ intervals, i.midpoint.isFinite = true ↔ i.width.isFinite = true) ∧
      (∀ total left, ∀ s ∈ (bisectRounds f total left (intervals.map (·.toSpan))).value,
        ∃ i ∈ intervals, i.HalvesTo s ∧
          (i.width.isFinite = true →
            (i.lower ≤ s.lower ∧ s.lower ≤ s.upper ∧ s.upper ≤ i.upper) ∧
              s.midpoint.isFinite = true)) ∧
      ∀ p ∈ (findApproximations f settings (intervals.map (·.toSpan))).probes,
        ∃ i ∈ intervals, ∃ s, i.HalvesTo s ∧ (p.location = s.lower ∨ p.location = s.upper) ∧
          (i.width.isFinite = true → i.lower ≤ p.location ∧ p.location ≤ i.upper) := by
  have hordered (i : Interval) : i.lower ≤ i.upper := le_of_lt i.proper.2.2
  refine ⟨fun i _ => ?_, fun total left s hs => ?_, fun p hp => ?_⟩
  · exact ⟨Span.isFinite_width_of_isFinite_midpoint,
      fun hw => (Span.midpoint_isWithin hw (hordered i)).1⟩
  · obtain ⟨seed, hseed, his⟩ := exists_ancestor_of_mem_bisectRounds hs
    obtain ⟨i, hi, rfl⟩ := List.mem_map.1 hseed
    refine ⟨i, hi, his, fun hw => ?_⟩
    have hwithin := his.isWithin hw (hordered i)
    exact ⟨⟨hwithin.lower_le, hwithin.ordered, hwithin.le_upper⟩,
      (Span.midpoint_isWithin (hwithin.isFinite_width hw) hwithin.ordered).1⟩
  · obtain ⟨i, hi, s, his, hend⟩ := mem_probes_findApproximations hp
    refine ⟨i, hi, s, his, hend, fun hw => ?_⟩
    have hwithin := his.isWithin hw (hordered i)
    rcases hend with hloc | hloc <;> rw [hloc]
    · exact ⟨hwithin.lower_le, le_trans hwithin.ordered hwithin.le_upper⟩
    · exact ⟨le_trans hwithin.lower_le hwithin.ordered, hwithin.le_upper⟩

/-- Ten rounds in an interval around both roots of `x² - 2`. -/
theorem findApproximations_isWithin_root_two :
    ∃ probes, (findApproximations (fun x => x * x - 2) { rounds := some ⟨10, by decide⟩ }
        [⟨-3, 4⟩]).probes = probes ∧
      0 < probes.length ∧ ∀ p ∈ probes, -3 ≤ p.location ∧ p.location ≤ 4 := by
  obtain ⟨-, -, hprobes⟩ := findApproximations_isWithin (fun x => x * x - 2)
    { rounds := some ⟨10, by decide⟩ } [⟨⟨-3, 4⟩, by decide⟩]
  refine ⟨_, rfl, by decide +kernel, fun p hp => ?_⟩
  obtain ⟨i, hi, -, -, -, hwithin⟩ := hprobes p hp
  cases List.mem_singleton.1 hi
  exact hwithin (by decide)

/-- A width may overflow.  The ends of the interval from `-2 ^ 1023` to `2 ^ 1023` are finite and
    in order, but its midpoint is infinite.  A single round then evaluates the identity at
    infinity, and gives infinity for an approximation of its root. -/
theorem exists_midpoint_not_isFinite :
    ∃ i : Interval, i.midpoint.isFinite = false ∧
      (∃ p ∈ (findApproximations id { rounds := some ⟨1, by decide⟩ } [i.toSpan]).probes,
        ¬ p.location ≤ i.upper) ∧
      (findApproximations id { rounds := some ⟨1, by decide⟩ } [i.toSpan]).outcome =
        .ok [⟨1 / 0, 1 / 0⟩] :=
  ⟨⟨⟨Float.ofBits 0xffe0000000000000, Float.ofBits 0x7fe0000000000000⟩, by decide⟩,
    by decide +kernel, by decide +kernel, by decide +kernel⟩

end ScalarRoots
