import ScalarRoots.Proofs.Bracketing.Rounds
import ScalarRoots.Proofs.Sign

/-!
# Bisection keeps its certificates

A span certainly contains a root when one of its ends is a root, or when the function has
opposite signs at the ends.  A round of bisection never loses such a certificate: one of
the halves has it again.  An end that is a root needs no more than that.  A change of sign
may turn into an end that is a root, and it needs the function to be defined at the
midpoints that are looked at.

## Key results

- `exists_survivor_of_hasRootAtEnd` / `exists_survivor_of_oppositeSigns`: one round
- `exists_tracked_of_hasRootAtEnd`: any number of rounds from an end that is a root
- `exists_certified_descendant`: any number of rounds from either certificate
-/

namespace ScalarRoots

namespace Span

/-- One end of the span is a root. -/
def HasRootAtEnd (f : Float → Float) (s : Span) : Prop :=
  (f s.lower == 0) = true ∨ (f s.upper == 0) = true

/-- The function has opposite signs at the ends of the span. -/
def HasSignChange (f : Float → Float) (s : Span) : Prop :=
  OppositeSigns (f s.lower) (f s.upper)

/-! ## Verdicts on certified spans -/

/-- A span with a root at one end gets the verdict of an exact root. -/
theorem HasRootAtEnd.test {f : Float → Float} {s : Span} (h : s.HasRootAtEnd f) :
    ∃ root, (s.test f).value = .exactRoot root := by
  rw [value_test]
  by_cases hl : (f s.lower == 0) = true
  · exact ⟨s.lower, if_pos hl⟩
  · have hu : (f s.upper == 0) = true := h.resolve_left hl
    exact ⟨s.upper, by rw [if_neg hl, if_pos hu]⟩

/-- A span with a change of sign gets the verdict that says so. -/
theorem HasSignChange.test {f : Float → Float} {s : Span} (h : s.HasSignChange f) :
    (s.test f).value = .brackets := by
  obtain ⟨⟨-, hl⟩, ⟨-, hu⟩, -⟩ := oppositeSigns_iff.1 h
  rw [value_test, hl, hu]
  exact h.ofValues

/-- A root at an end is not ruled out. -/
theorem HasRootAtEnd.test_ne {f : Float → Float} {s : Span} (h : s.HasRootAtEnd f) :
    (s.test f).value ≠ .doesNotBracket := by
  obtain ⟨root, hroot⟩ := h.test
  rw [hroot]
  exact Verdict.noConfusion

/-- Nor is a change of sign. -/
theorem HasSignChange.test_ne {f : Float → Float} {s : Span} (h : s.HasSignChange f) :
    (s.test f).value ≠ .doesNotBracket := by
  rw [h.test]
  exact Verdict.noConfusion

/-! ## One round -/

/-- A round keeps a half with a root at one end. -/
theorem exists_survivor_of_hasRootAtEnd {f : Float → Float} {s : Span}
    (h : s.HasRootAtEnd f) :
    ∃ t ∈ (s.survivors f).value, s.HalvesTo t ∧ t.HasRootAtEnd f := by
  by_cases hl : (f s.lower == 0) = true
  · have hleft : s.leftHalf.HasRootAtEnd f := .inl hl
    exact ⟨s.leftHalf, leftHalf_mem_survivors hleft.test_ne, HalvesTo.self.left, hleft⟩
  have hu : (f s.upper == 0) = true := h.resolve_left hl
  by_cases hm : (f s.midpoint == 0) = true
  · -- the root at the midpoint stands in for the one at the upper end
    have hleft : s.leftHalf.HasRootAtEnd f := .inr hm
    exact ⟨s.leftHalf, leftHalf_mem_survivors hleft.test_ne, HalvesTo.self.left, hleft⟩
  · have hright : s.rightHalf.HasRootAtEnd f := .inr hu
    have hmem := rightHalf_mem_survivors (Bool.eq_false_iff.2 hl) (Bool.eq_false_iff.2 hm)
      hright.test_ne
    exact ⟨s.rightHalf, hmem, HalvesTo.self.right, hright⟩

/-- A round keeps a half with a root at one end or a change of sign, when the function is
    defined at the midpoint. -/
theorem exists_survivor_of_hasSignChange {f : Float → Float} {s : Span}
    (h : s.HasSignChange f) (hnan : (f s.midpoint).isNaN = false) :
    ∃ t ∈ (s.survivors f).value,
      s.HalvesTo t ∧ (t.HasRootAtEnd f ∨ t.HasSignChange f) := by
  by_cases hm : (f s.midpoint == 0) = true
  · have hleft : s.leftHalf.HasRootAtEnd f := .inr hm
    exact ⟨s.leftHalf, leftHalf_mem_survivors hleft.test_ne, HalvesTo.self.left, .inl hleft⟩
  have hm' := Bool.eq_false_iff.2 hm
  obtain ⟨⟨-, hl⟩, -⟩ := oppositeSigns_iff.1 h
  -- the value at the midpoint has the opposite sign of that at one of the ends
  rcases OppositeSigns.split h hnan hm' with hcross | hcross
  · have hleft : s.leftHalf.HasSignChange f := hcross
    exact ⟨s.leftHalf, leftHalf_mem_survivors hleft.test_ne, HalvesTo.self.left, .inr hleft⟩
  · have hright : s.rightHalf.HasSignChange f := hcross
    exact ⟨s.rightHalf, rightHalf_mem_survivors hl hm' hright.test_ne, HalvesTo.self.right,
      .inr hright⟩

end Span

/-! ## Any number of rounds -/

/-- Rounds of bisection keep a span with a root at one end. -/
theorem exists_tracked_of_hasRootAtEnd {f : Float → Float} (total left : Nat)
    {spans : List Span} {s : Span} (hs : s ∈ spans) (h : s.HasRootAtEnd f) :
    ∃ t ∈ (bisectRounds f total left spans).value, s.HalvesTo t ∧ t.HasRootAtEnd f := by
  induction left generalizing spans s with
  | zero => exact ⟨s, hs, .self, h⟩
  | succ left ih =>
    obtain ⟨t, ht, hst, hroot⟩ := Span.exists_survivor_of_hasRootAtEnd h
    obtain ⟨u, hu, htu, hroot'⟩ := ih (mem_bisectAll hs ht) hroot
    exact ⟨u, hu, hst.trans htu, hroot'⟩

/-- Rounds of bisection keep a span with a root at one end or a change of sign, when the
    function is defined wherever a midpoint of a part of the span is looked at. -/
theorem exists_tracked_of_hasSignChange {f : Float → Float} (total left : Nat)
    {spans : List Span} {s : Span} (hs : s ∈ spans) (h : s.HasSignChange f)
    (hnan : ∀ t, s.HalvesTo t →
      ∀ p ∈ Transcript.probes (bisectRounds f total left spans).transcript,
        p.location = t.midpoint → p.result.isNaN = false) :
    ∃ t ∈ (bisectRounds f total left spans).value,
      s.HalvesTo t ∧ (t.HasRootAtEnd f ∨ t.HasSignChange f) := by
  induction left generalizing spans s with
  | zero => exact ⟨s, hs, .self, .inr h⟩
  | succ left ih =>
    -- what this round looks at comes first in the transcript, the other rounds after it
    simp only [Transcript.mem_probes, transcript_bisectRounds_succ] at hnan
    obtain ⟨⟨-, hl⟩, -⟩ := oppositeSigns_iff.1 h
    have hmid : (f s.midpoint).isNaN = false :=
      hnan s .self ⟨.value, s.midpoint, f s.midpoint⟩
        (List.mem_append_left _ (mem_transcript_bisectAll hs (Span.midpoint_probed hl))) rfl
    obtain ⟨t, ht, hst, hroot | hsign⟩ := Span.exists_survivor_of_hasSignChange h hmid
    · -- from here on the root at an end is enough
      obtain ⟨u, hu, htu, hroot'⟩ :=
        exists_tracked_of_hasRootAtEnd total left (mem_bisectAll hs ht) hroot
      exact ⟨u, hu, hst.trans htu, .inl hroot'⟩
    · obtain ⟨u, hu, htu, hcert⟩ := ih (mem_bisectAll hs ht) hsign
        fun v hv p hp => hnan v (hst.trans hv) p
          (List.mem_append_right _ (List.mem_cons_of_mem _ (Transcript.mem_probes.1 hp)))
      exact ⟨u, hu, hst.trans htu, hcert⟩

/-- A certificate of a root is never lost.  Take any of the intervals that bisection starts
    from, with a root at one end, or with opposite signs at its ends and a function that is
    defined wherever a midpoint of a part of it is looked at.  Then after any number of
    rounds a part of the interval is still tracked whose verdict is a change of sign or an
    exact root. -/
theorem exists_certified_descendant (f : Float → Float) (total rounds : Nat)
    (intervals : List Interval) (i : Interval) (hi : i ∈ intervals)
    (h : (f i.lower == 0) = true ∨ (f i.upper == 0) = true ∨
      OppositeSigns (f i.lower) (f i.upper) ∧
        ∀ s, i.HalvesTo s →
          ∀ p ∈ Transcript.probes
              (bisectRounds f total rounds (intervals.map (·.toSpan))).transcript,
            p.location = s.midpoint → p.result.isNaN = false) :
    ∃ s ∈ (bisectRounds f total rounds (intervals.map (·.toSpan))).value,
      i.HalvesTo s ∧
        ((s.test f).value = .brackets ∨ ∃ root, (s.test f).value = .exactRoot root) := by
  have hmem : i.toSpan ∈ intervals.map (·.toSpan) := List.mem_map.2 ⟨i, hi, rfl⟩
  have hcert : ∃ s ∈ (bisectRounds f total rounds (intervals.map (·.toSpan))).value,
      i.HalvesTo s ∧ (s.HasRootAtEnd f ∨ s.HasSignChange f) := by
    rcases h with hl | hu | ⟨hsign, hnan⟩
    · obtain ⟨s, hs, his, hroot⟩ := exists_tracked_of_hasRootAtEnd total rounds hmem (.inl hl)
      exact ⟨s, hs, his, .inl hroot⟩
    · obtain ⟨s, hs, his, hroot⟩ := exists_tracked_of_hasRootAtEnd total rounds hmem (.inr hu)
      exact ⟨s, hs, his, .inl hroot⟩
    · exact exists_tracked_of_hasSignChange total rounds hmem hsign hnan
  obtain ⟨s, hs, his, hroot | hsign⟩ := hcert
  · exact ⟨s, hs, his, .inr hroot.test⟩
  · exact ⟨s, hs, his, .inl hsign.test⟩

/-- Two rounds for the root of two in `[0, 2]`, tracked next to an interval without it. -/
theorem exists_certified_descendant_root_two :
    ∃ s ∈ (bisectRounds (fun x => x * x - 2) 2 2 [⟨3, 5⟩, ⟨0, 2⟩]).value,
      Span.HalvesTo ⟨0, 2⟩ s ∧
        ((s.test fun x => x * x - 2).value = .brackets ∨
          ∃ root, (s.test fun x => x * x - 2).value = .exactRoot root) := by
  have hnan : ∀ p ∈ Transcript.probes
      (bisectRounds (fun x => x * x - 2) 2 2 [⟨3, 5⟩, ⟨0, 2⟩]).transcript,
      p.result.isNaN = false := by decide +kernel
  exact exists_certified_descendant (fun x => x * x - 2) 2 2
    [⟨⟨3, 5⟩, by decide⟩, ⟨⟨0, 2⟩, by decide⟩] ⟨⟨0, 2⟩, by decide⟩
    (List.mem_cons_of_mem _ (List.mem_singleton_self _))
    (.inr (.inr ⟨by decide +kernel, fun _ _ p hp _ => hnan p hp⟩))

end ScalarRoots
