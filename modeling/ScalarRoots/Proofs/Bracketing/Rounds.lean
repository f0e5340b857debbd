import ScalarRoots.Bracketing

/-!
# Rounds of bisection

Every round replaces a span by those of its halves that may contain a root.  A span that
is tracked after some rounds comes from a span at the start by halving again and again,
and what a round looks at is part of the transcript of all rounds.

## Key results

- `leftHalf_mem_survivors` / `rightHalf_mem_survivors`: when a half survives a round
- `mem_bisectAll`: a round keeps the surviving halves of every span
- `midpoint_probed`: a round looks at the midpoint, unless the lower end is a root
-/

namespace ScalarRoots

/-- An evaluation is among the probes of a transcript when the transcript records it. -/
theorem Transcript.mem_probes {p : Probe} {t : Transcript} :
    p ∈ Transcript.probes t ↔ Event.probe p ∈ t := by
  unfold Transcript.probes
  rw [List.mem_filterMap]
  constructor
  · intro h
    obtain ⟨e, he, hp⟩ := h
    cases e with
    | probe q => cases hp; exact he
    | note n => exact nomatch hp
  · intro h
    exact ⟨.probe p, h, rfl⟩

namespace Span

/-- Halving the first span again and again, and keeping one half each time, leads to the
    second one. -/
inductive HalvesTo (s : Span) : Span → Prop where
  | self : HalvesTo s s
  | left {t : Span} (h : HalvesTo s t) : HalvesTo s t.leftHalf
  | right {t : Span} (h : HalvesTo s t) : HalvesTo s t.rightHalf

/-- Parts of parts are parts. -/
theorem HalvesTo.trans {s t u : Span} (hst : s.HalvesTo t) (htu : t.HalvesTo u) :
    s.HalvesTo u := by
  induction htu with
  | self => exact hst
  | left _ ih => exact ih.left
  | right _ ih => exact ih.right

/-- A span is kept when its verdict does not rule a root out. -/
theorem mem_keepIf {s t : Span} {v : Verdict} : t ∈ s.keepIf v ↔ t = s ∧ v ≠ .doesNotBracket := by
  unfold keepIf
  rw [Ne, ← Verdict.mayContainRoot_eq_false, Bool.not_eq_false]
  split
  · next hv => simp [hv]
  · next hv => simp [hv]

/-- The left half survives when its verdict does not rule a root out. -/
theorem leftHalf_mem_survivors {f : Float → Float} {s : Span}
    (h : (s.leftHalf.test f).value ≠ .doesNotBracket) :
    s.leftHalf ∈ (s.survivors f).value := by
  rw [value_survivors]
  split
  · exact mem_keepIf.2 ⟨rfl, h⟩
  · exact List.mem_append_left _ (mem_keepIf.2 ⟨rfl, h⟩)

/-- The right half survives when its verdict does not rule a root out and neither its lower
    end nor that of the left half is a root. -/
theorem rightHalf_mem_survivors {f : Float → Float} {s : Span}
    (hl : (f s.lower == 0) = false) (hm : (f s.midpoint == 0) = false)
    (h : (s.rightHalf.test f).value ≠ .doesNotBracket) :
    s.rightHalf ∈ (s.survivors f).value := by
  have hleft : (s.leftHalf.test f).value = .ofValues (f s.lower) (f s.midpoint) := by
    rw [value_test]
    simp only [leftHalf, hl, hm, Bool.false_eq_true, if_false]
  -- so the left half does not take the right one's place
  have hroot : (s.leftHalf.test f).value.isRootAt s.midpoint = false := by
    rw [hleft]
    unfold Verdict.ofValues
    split
    · rfl
    · split <;> rfl
  rw [value_survivors, if_neg (by rw [hroot]; exact Bool.false_ne_true)]
  exact List.mem_append_right _ (mem_keepIf.2 ⟨rfl, h⟩)

/-- A round looks at the midpoint of a span, unless the lower end is a root. -/
theorem midpoint_probed {f : Float → Float} {s : Span} (hl : (f s.lower == 0) = false) :
    Event.probe ⟨.value, s.midpoint, f s.midpoint⟩ ∈ (s.survivors f).transcript := by
  -- the midpoint is the upper end of the left half, which is tested first
  have htest : Event.probe ⟨.value, s.midpoint, f s.midpoint⟩ ∈
      (s.leftHalf.test f).transcript := by
    by_cases hm : (f s.midpoint == 0) = true <;> simp [test, leftHalf, hl, hm]
  unfold survivors
  rw [Traced.transcript_bind]
  exact List.mem_append_left _ htest

end Span

/-- A round keeps the surviving halves of every span. -/
theorem mem_bisectAll {f : Float → Float} {spans : List Span} {s t : Span} (hs : s ∈ spans)
    (ht : t ∈ (s.survivors f).value) : t ∈ (bisectAll f spans).value := by
  rw [value_bisectAll, List.mem_flatMap]
  exact ⟨s, hs, ht⟩

/-- The transcript of a round holds what was looked at for every span. -/
theorem mem_transcript_bisectAll {f : Float → Float} {spans : List Span} {s : Span} {e : Event}
    (hs : s ∈ spans) (he : e ∈ (s.survivors f).transcript) :
    e ∈ (bisectAll f spans).transcript := by
  induction spans with
  | nil => exact absurd hs List.not_mem_nil
  | cons r rest ih =>
    simp only [bisectAll, Traced.transcript_bind, Traced.transcript_pure, List.append_nil,
      List.mem_append]
    rcases List.mem_cons.1 hs with rfl | hrest
    · exact .inl he
    · exact .inr (ih hrest)

/-- One round is recorded, then a log record of it, and then the other rounds. -/
theorem transcript_bisectRounds_succ (f : Float → Float) (total left : Nat)
    (spans : List Span) :
    (bisectRounds f total (left + 1) spans).transcript =
      (bisectAll f spans).transcript ++
        (.note (.round (total - left) total (bisectAll f spans).value.length) ::
          (bisectRounds f total left (bisectAll f spans).value).transcript) := rfl

end ScalarRoots
