import ScalarRoots.Proofs.Bracketing.Containment

/-!
# Roots at the ends of an interval

A root at the lower end of an interval stays an end of a tracked span for good, because the
left half is always looked at first.  A root at the upper end depends on the right half, which
is left out when the left one has a root at the midpoint.  The last part of the interval, the
one that still ends in the root, is then given up together with it, unless the midpoint is
that very root.

## Key results

- `Span.lastPart`: the part of a span that ends where the span ends
- `Span.exists_leaf_lower_eq`: a root at the lower end, after any number of rounds
- `Span.exists_leaf_hasEnd_iff`: a root at the upper end, after any number of rounds
- `exists_tracked_end_iff`: the same for bisection from any intervals
- `exists_root_dropped`: a root at the upper end that is given up
-/

namespace ScalarRoots

open Binary64

namespace Span

/-- The number is one of the two ends. -/
def HasEnd (s : Span) (x : Float) : Prop := (s.lower == x) = true ∨ (s.upper == x) = true

instance (s : Span) (x : Float) : Decidable (s.HasEnd x) := by unfold HasEnd; infer_instance

/-- The part that is left of a span when its right half is taken `k` times. -/
def lastPart : (k : Nat) → Span → Span
  | 0, s => s
  | k + 1, s => lastPart k s.rightHalf

/-- The right half is left out of a round, because the left one has a root at the midpoint. -/
def SkipsRight (f : Float → Float) (s : Span) : Prop :=
  (s.leftHalf.test f).value.isRootAt s.midpoint = true

instance (f : Float → Float) (s : Span) : Decidable (s.SkipsRight f) := by
  unfold SkipsRight; infer_instance

/-- The last parts are parts of the span. -/
theorem halvesTo_lastPart (k : Nat) (s : Span) : s.HalvesTo (s.lastPart k) := by
  induction k generalizing s with
  | zero => exact .self
  | succ k ih => exact HalvesTo.self.right.trans (ih s.rightHalf)

/-! ## Leaves -/

/-- The leaves of a span are those of its surviving halves. -/
theorem mem_leaves_succ {f : Float → Float} {depth : Nat} {s t : Span} :
    t ∈ s.leaves f (depth + 1) ↔ ∃ u ∈ (s.survivors f).value, t ∈ u.leaves f depth := by
  rw [leaves_succ, List.mem_flatMap]

/-- The leaves of a span are parts of it. -/
theorem halvesTo_of_mem_leaves {f : Float → Float} {depth : Nat} {s t : Span}
    (h : t ∈ s.leaves f depth) : s.HalvesTo t := by
  induction depth generalizing s with
  | zero =>
    rw [List.mem_singleton.1 h]
    exact .self
  | succ depth ih =>
    obtain ⟨u, hu, ht⟩ := mem_leaves_succ.1 h
    exact (halvesTo_of_mem_survivors hu).trans (ih ht)

/-- A span with a root at one end has a leaf. -/
theorem exists_leaf_of_hasRootAtEnd {f : Float → Float} (depth : Nat) {s : Span}
    (h : s.HasRootAtEnd f) : ∃ t, t ∈ s.leaves f depth := by
  induction depth generalizing s with
  | zero => exact ⟨s, List.mem_singleton_self s⟩
  | succ depth ih =>
    obtain ⟨u, hu, -, hroot⟩ := exists_survivor_of_hasRootAtEnd h
    obtain ⟨t, ht⟩ := ih hroot
    exact ⟨t, mem_leaves_succ.2 ⟨u, hu, ht⟩⟩

/-- A root at the lower end of a span is the lower end of one of its leaves. -/
theorem exists_leaf_lower_eq {f : Float → Float} (depth : Nat) {s : Span}
    (h : (f s.lower == 0) = true) : ∃ t ∈ s.leaves f depth, t.lower = s.lower := by
  induction depth generalizing s with
  | zero => exact ⟨s, List.mem_singleton_self s, rfl⟩
  | succ depth ih =>
    -- the left half has the same lower end, and is kept for the root there
    have hleft : s.leftHalf.HasRootAtEnd f := .inl h
    obtain ⟨t, ht, hlower⟩ := ih (s := s.leftHalf) h
    exact ⟨t, mem_leaves_succ.2 ⟨_, leftHalf_mem_survivors hleft.test_ne, ht⟩, hlower⟩

/-! ## One round -/

/-- When the right half is left out, nothing but the left half can be kept. -/
theorem eq_leftHalf_of_skipsRight {f : Float → Float} {s t : Span} (h : s.SkipsRight f)
    (ht : t ∈ (s.survivors f).value) : t = s.leftHalf := by
  unfold SkipsRight at h
  rw [value_survivors, if_pos h] at ht
  exact (mem_keepIf.1 ht).1

/-- When the right half is not left out, its own test decides. -/
theorem rightHalf_mem_survivors_of_not_skipsRight {f : Float → Float} {s : Span}
    (h : ¬ s.SkipsRight f) (htest : (s.rightHalf.test f).value ≠ .doesNotBracket) :
    s.rightHalf ∈ (s.survivors f).value := by
  unfold SkipsRight at h
  rw [value_survivors, if_neg h]
  exact List.mem_append_right _ (mem_keepIf.2 ⟨rfl, htest⟩)

/-! ## Upper ends -/

/-- The upper end is finite, and the lower end is no greater, if it is finite too.  A midpoint
    may overflow, and then it becomes the lower end of the right half. -/
structure IsAnchored (s : Span) : Prop where
  upper_finite : s.upper.isFinite = true
  lower_le : s.lower.isFinite = true → s.lower ≤ s.upper

/-- The right half has the same upper end, and the midpoint is not beyond it. -/
theorem IsAnchored.rightHalf {s : Span} (h : s.IsAnchored) : s.rightHalf.IsAnchored where
  upper_finite := h.upper_finite
  lower_le hmid := by
    have hwidth := isFinite_width_of_isFinite_midpoint hmid
    exact (midpoint_isWithin hwidth (h.lower_le (isFinite_of_isFinite_sub hwidth).2)).2.2

/-- What equals a finite number is finite. -/
theorem isFinite_of_beq {x y : Float} (hy : y.isFinite = true) (h : (x == y) = true) :
    x.isFinite = true := by
  obtain ⟨⟨hnan, -⟩, hunits⟩ := beq_iff.1 h
  exact isFinite_iff.2 ⟨hnan, hunits ▸ (isFinite_iff.1 hy).2⟩

/-- Equal ends are no distance apart. -/
theorem isFinite_width_of_beq {s : Span} (hs : s.IsAnchored)
    (h : (s.lower == s.upper) = true) : s.width.isFinite = true := by
  have hlower := isFinite_of_beq hs.upper_finite h
  obtain ⟨hnan, hwidth⟩ := units_sub hs.upper_finite hlower
  -- the exact difference is zero, and stays so when it is rounded
  rw [(beq_iff.1 h).2, sub_self, roundUnits_zero] at hwidth
  have hzero := (isFinite_iff (x := 0)).1 (by decide)
  rw [units_zero] at hzero
  refine isFinite_iff.2 ⟨hnan, ?_⟩
  show |units (s.upper - s.lower)| < _
  rw [hwidth]
  exact hzero.2

/-- Where the midpoint is the upper end, it is the same for every part: the left half has the
    ends of the span, and the right half is a single point. -/
theorem HalvesTo.upper_beq {s t : Span} (h : s.HalvesTo t) (hs : s.IsAnchored)
    (hm : (s.midpoint == s.upper) = true) : (t.upper == s.upper) = true := by
  have hmid := isFinite_of_beq hs.upper_finite hm
  have hw := isFinite_width_of_isFinite_midpoint hmid
  have hle := hs.lower_le (isFinite_of_isFinite_sub hw).2
  -- carried over: the upper end, and that the lower end is one of the two ends
  suffices hends : units t.upper = units s.upper ∧
      (units t.lower = units s.lower ∨ units t.lower = units s.upper) by
    have hnan := (le_iff.1 (h.isWithin hw hle).le_upper).1
    exact beq_iff.2 ⟨hnan, hends.1⟩
  have hmidpoint {t : Span} (h : s.HalvesTo t) (hupper : units t.upper = units s.upper)
      (hlower : units t.lower = units s.lower ∨ units t.lower = units s.upper) :
      units t.midpoint = units s.upper := by
    have hwithin := h.isWithin hw hle
    have hwt := hwithin.isFinite_width hw
    rcases hlower with hsame | hpoint
    · -- the midpoint depends on the ends alone
      have hunits := (units_midpoint hwt hwithin.ordered).2
      rw [hsame, hupper, ← (units_midpoint hw hle).2] at hunits
      exact hunits.trans (beq_iff.1 hm).2
    · obtain ⟨-, hbelow, habove⟩ := midpoint_isWithin hwt hwithin.ordered
      exact le_antisymm ((le_iff.1 habove).2.trans_eq hupper)
        (hpoint.symm.trans_le (le_iff.1 hbelow).2)
  -- A left half gets the midpoint as its upper end, a right half as its lower end; the other end is
  -- that of the part before.
  induction h with
  | self => exact ⟨rfl, .inl rfl⟩
  | left ht ih => exact ⟨hmidpoint ht ih.1 ih.2, ih.2⟩
  | right ht ih => exact ⟨ih.1, .inr (hmidpoint ht ih.1 ih.2)⟩

/-- With an upper end that is not finite, the midpoint is not finite either. -/
theorem isFinite_midpoint_eq_false {s : Span} (h : s.upper.isFinite = false) :
    s.midpoint.isFinite = false := by
  cases hmid : s.midpoint.isFinite with
  | false => rfl
  | true =>
    have hwidth := isFinite_width_of_isFinite_midpoint hmid
    rw [(isFinite_of_isFinite_sub hwidth).1] at h
    exact h

/-- An upper end that is not finite leaves nothing finite between the ends. -/
theorem HalvesTo.ends_of_not_isFinite {s t : Span} (h : s.HalvesTo t)
    (hs : s.upper.isFinite = false) :
    t.upper.isFinite = false ∧ (t.lower = s.lower ∨ t.lower.isFinite = false) := by
  induction h with
  | self => exact ⟨hs, .inl rfl⟩
  | left _ ih => exact ⟨isFinite_midpoint_eq_false ih.1, ih.2⟩
  | right _ ih => exact ⟨ih.1, .inr (isFinite_midpoint_eq_false ih.1)⟩

/-- No part of the left half ends where the span ends, unless the midpoint is there. -/
theorem not_hasEnd_of_leftHalf {s t : Span} (hs : s.IsAnchored)
    (hm : ¬ (s.midpoint == s.upper) = true) (h : s.leftHalf.HalvesTo t) :
    ¬ t.HasEnd s.upper := by
  cases hmid : s.midpoint.isFinite with
  | true =>
    have hw := isFinite_width_of_isFinite_midpoint hmid
    have hle := hs.lower_le (isFinite_of_isFinite_sub hw).2
    -- all parts of the left half are within it, and it ends below the upper end
    obtain ⟨-, hbelow, habove⟩ := midpoint_isWithin hw hle
    obtain ⟨hnan, hunits⟩ := le_iff.1 habove
    have hlt : units s.midpoint < units s.upper :=
      lt_of_le_of_ne hunits fun heq => hm (beq_iff.2 ⟨hnan, heq⟩)
    have hleft := leftHalf_isWithin hw hle
    have hwithin := h.isWithin (hleft.isFinite_width hw) hleft.ordered
    have hupper := (le_iff.1 hwithin.le_upper).2.trans_lt hlt
    have hlower := (le_iff.1 hwithin.ordered).2.trans_lt hupper
    intro hend
    rcases hend with hend | hend
    · exact hlower.ne (beq_iff.1 hend).2
    · exact hupper.ne (beq_iff.1 hend).2
  | false =>
    -- then all new ends are not finite either
    obtain ⟨hupper, hlower⟩ := h.ends_of_not_isFinite hmid
    intro hend
    rcases hend with hend | hend
    · rcases hlower with hsame | hinf
      · -- equal ends have a finite width, and so a finite midpoint
        rw [hsame] at hend
        have hwidth := isFinite_width_of_beq hs hend
        have hle := hs.lower_le (isFinite_of_isFinite_sub hwidth).2
        rw [(midpoint_isWithin hwidth hle).1] at hmid
        cases hmid
      · rw [isFinite_of_beq hs.upper_finite hend] at hinf
        cases hinf
    · rw [isFinite_of_beq hs.upper_finite hend] at hupper
      cases hupper

/-- A root at the upper end of a span is an end of one of its leaves exactly when no last part
    of the span, before that depth, is split at another root. -/
theorem exists_leaf_hasEnd_iff {f : Float → Float} (depth : Nat) {s : Span} (hs : s.IsAnchored)
    (hroot : (f s.upper == 0) = true) :
    (∃ t ∈ s.leaves f depth, t.HasEnd s.upper) ↔
      ∀ k < depth, (s.lastPart k).SkipsRight f →
        ((s.lastPart k).midpoint == s.upper) = true := by
  -- Induction on the depth; the right half has the same upper end and the other last parts.
  induction depth generalizing s with
  | zero =>
    have hself : (s.upper == s.upper) = true :=
      beq_iff.2 ⟨⟨isNaN_of_isFinite hs.upper_finite, isNaN_of_isFinite hs.upper_finite⟩, rfl⟩
    exact ⟨fun _ k hk => absurd hk (Nat.not_lt_zero k),
      fun _ => ⟨s, List.mem_singleton_self s, .inr hself⟩⟩
  | succ depth ih =>
    by_cases hm : (s.midpoint == s.upper) = true
    · -- both sides hold, as all parts have the upper end of the span
      constructor
      · intro _ k _ _
        exact (halvesTo_lastPart k s).left.upper_beq hs hm
      · intro _
        obtain ⟨t, ht⟩ := exists_leaf_of_hasRootAtEnd (depth + 1) (s := s) (.inr hroot)
        exact ⟨t, ht, .inr ((halvesTo_of_mem_leaves ht).upper_beq hs hm)⟩
    by_cases hskip : s.SkipsRight f
    · -- neither side holds, as only the left half is kept
      constructor
      · intro hleaf
        obtain ⟨t, ht, hend⟩ := hleaf
        obtain ⟨u, hu, htu⟩ := mem_leaves_succ.1 ht
        rw [eq_leftHalf_of_skipsRight hskip hu] at htu
        exact absurd hend (not_hasEnd_of_leftHalf hs hm (halvesTo_of_mem_leaves htu))
      · intro h
        exact absurd (h 0 (Nat.succ_pos _) hskip) hm
    · have hright : s.rightHalf.HasRootAtEnd f := .inr hroot
      have hmem := rightHalf_mem_survivors_of_not_skipsRight hskip hright.test_ne
      have hparts := ih (s := s.rightHalf) hs.rightHalf hroot
      constructor
      · intro hleaf k hk
        obtain ⟨t, ht, hend⟩ := hleaf
        obtain ⟨u, hu, htu⟩ := mem_leaves_succ.1 ht
        cases k with
        | zero => exact fun h => absurd h hskip
        | succ k =>
          refine hparts.1 ⟨t, ?_, hend⟩ k (Nat.lt_of_succ_lt_succ hk)
          -- the leaf is one of the right half, as the left one no longer reaches the end
          rcases (half_of_mem_survivors hu).1 with rfl | rfl
          · exact absurd hend (not_hasEnd_of_leftHalf hs hm (halvesTo_of_mem_leaves htu))
          · exact htu
      · intro h
        obtain ⟨t, ht, hend⟩ := hparts.2 fun k hk => h (k + 1) (Nat.succ_lt_succ hk)
        exact ⟨t, mem_leaves_succ.2 ⟨_, hmem, ht⟩, hend⟩

end Span

/-- The ends of an interval are finite and in order. -/
theorem Interval.isAnchored (i : Interval) : i.toSpan.IsAnchored :=
  ⟨i.proper.2.1, fun _ => le_of_lt i.proper.2.2⟩

/-! ## Searches -/

/-- What becomes of a root at an end of an interval.  After any number of rounds the leaves of
    the interval are tracked, which are parts of it.  A root at the lower end is the lower end
    of one of them.  A root at the upper end is an end of one of them exactly when, in all of
    these rounds, the part of the interval that ends in the root was not split at another root:
    whenever its right half was left out, its midpoint was the root itself. -/
theorem exists_tracked_end_iff (f : Float → Float) (total rounds : Nat)
    (intervals : List Interval) (i : Interval) (hi : i ∈ intervals) :
    (∀ s ∈ i.leaves f rounds,
        s ∈ (bisectRounds f total rounds (intervals.map (·.toSpan))).value ∧ i.HalvesTo s) ∧
      ((f i.lower == 0) = true → ∃ s ∈ i.leaves f rounds, s.lower = i.lower) ∧
      ((f i.upper == 0) = true →
        ((∃ s ∈ i.leaves f rounds, s.HasEnd i.upper) ↔
          ∀ k < rounds, (i.lastPart k).SkipsRight f →
            ((i.lastPart k).midpoint == i.upper) = true)) := by
  refine ⟨fun s hs => ⟨?_, Span.halvesTo_of_mem_leaves hs⟩, Span.exists_leaf_lower_eq rounds,
    Span.exists_leaf_hasEnd_iff rounds i.isAnchored⟩
  rw [value_bisectRounds_eq_flatMap_leaves, List.flatMap_map]
  exact List.mem_flatMap.2 ⟨i, hi, hs⟩

/-- Five rounds for `(x - 1) (x - 2)` between its two roots. -/
theorem exists_tracked_end_iff_one_two :
    (∃ s ∈ (bisectRounds (fun x => (x - 1) * (x - 2)) 5 5 [⟨1, 2⟩]).value, s.lower = 1) ∧
      ∃ s ∈ (bisectRounds (fun x => (x - 1) * (x - 2)) 5 5 [⟨1, 2⟩]).value, s.HasEnd 2 := by
  obtain ⟨htracked, hlower, hupper⟩ := exists_tracked_end_iff (fun x => (x - 1) * (x - 2)) 5 5
    [⟨⟨1, 2⟩, by decide⟩] ⟨⟨1, 2⟩, by decide⟩ (List.mem_singleton_self _)
  obtain ⟨s, hs, hslower⟩ := hlower (by decide +kernel)
  obtain ⟨t, ht, htend⟩ := (hupper (by decide +kernel)).2 (by decide +kernel)
  exact ⟨⟨s, (htracked s hs).1, hslower⟩, t, (htracked t ht).1, htend⟩

/-- A root at the upper end may be given up.  Both `1` and `2` are roots of `(x - 1) (x - 2)`.
    A single round from the interval `[0, 2]` finds the root at its midpoint, leaves the right
    half out, and with it the root at the upper end. -/
theorem exists_root_dropped :
    ∃ (f : Float → Float) (i : Interval), (f i.upper == 0) = true ∧
      ∀ s ∈ (bisectRounds f 1 1 [i.toSpan]).value, ¬ s.HasEnd i.upper :=
  ⟨fun x => (x - 1) * (x - 2), ⟨⟨0, 2⟩, by decide⟩, by decide +kernel, by decide +kernel⟩

end ScalarRoots
