import ScalarRoots.Proofs.Bracketing.DepthFirst

/-!
# How many brackets are found

Where a function is defined and has no zero at the points that are looked at, its signs alone
decide what bisection keeps.  A span with a change of sign has exactly one half with a change
of sign, whatever the sign at the midpoint is.  A span without one has two such halves or
none.  So after the first round the number of spans stays what it is.

## Key results

- `Span.survivors_of_hasSignChange` / `Span.survivors_of_not_hasSignChange`: one round
- `exists_leaves_eq_singleton`: any number of rounds from a change of sign
- `length_leaves_of_isSigned`: any number of rounds, at least one, from any span
- `length_approximations`: the approximations of every interval
-/

namespace ScalarRoots

open Binary64

/-! ## Values with a sign -/

/-- A value that is neither NaN nor zero. -/
def HasSign (y : Float) : Prop := y.isNaN = false ∧ (y == 0) = false

instance (y : Float) : Decidable (HasSign y) := by unfold HasSign; infer_instance

/-- Between values with a sign, opposite signs are different sign bits. -/
theorem HasSign.oppositeSigns_iff {y y' : Float} (h : HasSign y) (h' : HasSign y') :
    OppositeSigns y y' ↔ signBit y ≠ signBit y' := by
  rw [ScalarRoots.oppositeSigns_iff]
  exact ⟨fun hopp => hopp.2.2, fun hne => ⟨h, h', hne⟩⟩

/-- Every evaluation that a transcript records gave a value with a sign. -/
def Transcript.IsSigned (t : Transcript) : Prop := ∀ p ∈ Transcript.probes t, HasSign p.result

/-- A transcript is signed when its parts are. -/
theorem Transcript.isSigned_append {t t' : Transcript} :
    Transcript.IsSigned (t ++ t') ↔ Transcript.IsSigned t ∧ Transcript.IsSigned t' := by
  unfold Transcript.IsSigned
  rw [Transcript.probes_append]
  exact List.forall_mem_append

/-- A log record does not matter. -/
theorem Transcript.isSigned_cons_note {n : Note} {t : Transcript} :
    Transcript.IsSigned (.note n :: t) ↔ Transcript.IsSigned t := by
  unfold Transcript.IsSigned
  rw [Transcript.probes_cons_note]

/-! ## One round -/

namespace Span

instance (f : Float → Float) (s : Span) : Decidable (s.HasSignChange f) := by
  unfold HasSignChange; infer_instance

/-- What a test looks at has a sign: both ends. -/
theorem hasSign_of_isSigned_test {f : Float → Float} {s : Span}
    (h : Transcript.IsSigned (s.test f).transcript) :
    HasSign (f s.lower) ∧ HasSign (f s.upper) := by
  have hlower : HasSign (f s.lower) := by
    refine h ⟨.value, s.lower, f s.lower⟩ ?_
    simp [test]
  -- the lower end is no root, so the upper one is looked at as well
  refine ⟨hlower, h ⟨.value, s.upper, f s.upper⟩ ?_⟩
  by_cases hu : (f s.upper == 0) = true <;> simp [test, hlower.2, hu]

/-- With a sign at both ends, a span is kept when the signs differ. -/
theorem keepIf_test_of_hasSign {f : Float → Float} {s : Span} (h : HasSign (f s.lower))
    (h' : HasSign (f s.upper)) :
    s.keepIf (s.test f).value = if s.HasSignChange f then [s] else [] := by
  -- an end with a sign is no root
  have hroot : ¬ s.HasRootAtEnd f := by
    unfold HasRootAtEnd
    rw [h.2, h'.2]
    decide
  have hkeep : (s.test f).value.mayContainRoot = true ↔ s.HasSignChange f := by
    rw [← Bool.not_eq_false, Verdict.mayContainRoot_eq_false, ← Ne, test_ne_doesNotBracket_iff]
    exact or_iff_right hroot
  unfold keepIf
  simp only [hkeep]

/-- Ends that have a sign are not roots, so the verdict names none. -/
theorem isRootAt_test_of_hasSign {f : Float → Float} {s : Span} (x : Float)
    (h : HasSign (f s.lower)) (h' : HasSign (f s.upper)) :
    (s.test f).value.isRootAt x = false := by
  rw [value_test, h.2, h'.2]
  simp only [Bool.false_eq_true, if_false]
  unfold Verdict.ofValues
  split
  · rfl
  · split <;> rfl

/-- A round looks at both ends of a span and at its midpoint, and keeps the halves with a
    change of sign. -/
theorem survivors_of_isSigned {f : Float → Float} {s : Span}
    (h : Transcript.IsSigned (s.survivors f).transcript) :
    (HasSign (f s.lower) ∧ HasSign (f s.midpoint) ∧ HasSign (f s.upper)) ∧
      (s.survivors f).value =
        (if s.leftHalf.HasSignChange f then [s.leftHalf] else []) ++
          if s.rightHalf.HasSignChange f then [s.rightHalf] else [] := by
  unfold survivors at h
  rw [Traced.transcript_bind, Transcript.isSigned_append] at h
  obtain ⟨hleft, hrest⟩ := h
  obtain ⟨hl, hm⟩ := hasSign_of_isSigned_test hleft
  have hroot := isRootAt_test_of_hasSign s.midpoint hl hm
  -- the midpoint is no root, so the right half is tested as well
  rw [hroot, if_neg Bool.false_ne_true, Traced.transcript_bind, Transcript.isSigned_append] at hrest
  obtain ⟨hm', hu⟩ := hasSign_of_isSigned_test hrest.1
  refine ⟨⟨hl, hm, hu⟩, ?_⟩
  rw [value_survivors, hroot, if_neg Bool.false_ne_true, keepIf_test_of_hasSign hl hm,
    keepIf_test_of_hasSign hm' hu]

/-- Of a span with a change of sign a round keeps exactly one half, with a change of sign. -/
theorem survivors_of_hasSignChange {f : Float → Float} {s : Span}
    (h : Transcript.IsSigned (s.survivors f).transcript) (hsign : s.HasSignChange f) :
    ∃ t, (s.survivors f).value = [t] ∧ t.HasSignChange f := by
  obtain ⟨⟨hl, hm, hu⟩, hvalue⟩ := survivors_of_isSigned h
  have hne := (hl.oppositeSigns_iff hu).1 hsign
  -- the sign at the midpoint is that of one of the ends, and not that of the other
  by_cases hcross : signBit (f s.lower) = signBit (f s.midpoint)
  · -- the midpoint has the sign of the lower end
    have hleft : ¬ s.leftHalf.HasSignChange f := fun hcon =>
      (hl.oppositeSigns_iff hm).1 hcon hcross
    have hright : s.rightHalf.HasSignChange f :=
      (hm.oppositeSigns_iff hu).2 (hcross ▸ hne)
    exact ⟨s.rightHalf, by rw [hvalue, if_neg hleft, if_pos hright]; rfl, hright⟩
  · -- the midpoint has the sign of the upper end, as there are only two signs
    have hleft : s.leftHalf.HasSignChange f := (hl.oppositeSigns_iff hm).2 hcross
    have hright : ¬ s.rightHalf.HasSignChange f := fun hcon => by
      have hne' := (hm.oppositeSigns_iff hu).1 hcon
      revert hne hcross hne'
      cases signBit (f s.lower) <;> cases signBit (f s.midpoint) <;>
        cases signBit (f s.upper) <;> decide
    exact ⟨s.leftHalf, by rw [hvalue, if_pos hleft, if_neg hright]; rfl, hleft⟩

/-- Of a span without a change of sign a round keeps both halves, with a change of sign each,
    or none of them. -/
theorem survivors_of_not_hasSignChange {f : Float → Float} {s : Span}
    (h : Transcript.IsSigned (s.survivors f).transcript) (hsign : ¬ s.HasSignChange f) :
    (s.survivors f).value =
        (if s.leftHalf.HasSignChange f then [s.leftHalf, s.rightHalf] else []) ∧
      ∀ t ∈ (s.survivors f).value, t.HasSignChange f := by
  obtain ⟨⟨hl, hm, hu⟩, hvalue⟩ := survivors_of_isSigned h
  have heq : signBit (f s.lower) = signBit (f s.upper) := by
    by_contra hne
    exact hsign ((hl.oppositeSigns_iff hu).2 hne)
  -- with equal signs at the ends, the midpoint differs from both or from none
  have hboth : s.rightHalf.HasSignChange f ↔ s.leftHalf.HasSignChange f := by
    have hleft := hl.oppositeSigns_iff hm
    have hright := hm.oppositeSigns_iff hu
    rw [heq] at hleft
    exact hright.trans (ne_comm.trans hleft.symm)
  rw [hvalue]
  simp only [hboth]
  split
  · next hleft => exact ⟨rfl, by simpa [hleft] using hboth.2 hleft⟩
  · exact ⟨rfl, by simp⟩

end Span

/-! ## Any number of rounds -/

/-- If a whole round is signed, it is so for each of its spans. -/
theorem isSigned_bisectAll {f : Float → Float} {spans : List Span}
    (h : Transcript.IsSigned (bisectAll f spans).transcript) {s : Span} (hs : s ∈ spans) :
    Transcript.IsSigned (s.survivors f).transcript := by
  intro p hp
  exact h p (Transcript.mem_probes.2 (mem_transcript_bisectAll hs (Transcript.mem_probes.1 hp)))

/-- What rounds look at has a sign when what the first one and what the others look at has. -/
theorem isSigned_bisectRounds_succ {f : Float → Float} {total left : Nat} {spans : List Span} :
    Transcript.IsSigned (bisectRounds f total (left + 1) spans).transcript ↔
      Transcript.IsSigned (bisectAll f spans).transcript ∧
        Transcript.IsSigned
          (bisectRounds f total left (bisectAll f spans).value).transcript := by
  rw [transcript_bisectRounds_succ, Transcript.isSigned_append, Transcript.isSigned_cons_note]

/-- A span with a change of sign has a single leaf, with a change of sign. -/
theorem exists_leaves_eq_singleton {f : Float → Float} {total left : Nat} {spans : List Span}
    (h : Transcript.IsSigned (bisectRounds f total left spans).transcript) {s : Span}
    (hs : s ∈ spans) (hsign : s.HasSignChange f) :
    ∃ t, s.leaves f left = [t] ∧ t.HasSignChange f := by
  -- Induction on the rounds left; the half that the first one keeps is tracked by the others.
  induction left generalizing spans s with
  | zero => exact ⟨s, rfl, hsign⟩
  | succ left ih =>
    obtain ⟨hall, hrest⟩ := isSigned_bisectRounds_succ.1 h
    obtain ⟨t, ht, htsign⟩ := Span.survivors_of_hasSignChange (isSigned_bisectAll hall hs) hsign
    have hmem : t ∈ (bisectAll f spans).value :=
      mem_bisectAll hs (by rw [ht]; exact List.mem_singleton_self t)
    obtain ⟨u, hu, husign⟩ := ih hrest hmem htsign
    exact ⟨u, by rw [Span.leaves_succ, ht, List.flatMap_singleton, hu], husign⟩

/-- After a round or more, a span has a leaf for its change of sign, or else one for each of
    the changes of sign between its ends and its midpoint. -/
theorem length_leaves_of_isSigned {f : Float → Float} {total left : Nat} {spans : List Span}
    (h : Transcript.IsSigned (bisectRounds f total (left + 1) spans).transcript) {s : Span}
    (hs : s ∈ spans) :
    (s.leaves f (left + 1)).length =
        (if s.HasSignChange f then 1 else if s.leftHalf.HasSignChange f then 2 else 0) ∧
      ∀ t ∈ s.leaves f (left + 1), t.HasSignChange f := by
  obtain ⟨hall, hrest⟩ := isSigned_bisectRounds_succ.1 h
  have hsurvivors := isSigned_bisectAll hall hs
  -- every survivor of the first round has a single leaf
  have hleaf : ∀ t ∈ (s.survivors f).value, t.HasSignChange f →
      ∃ u, t.leaves f left = [u] ∧ u.HasSignChange f := fun t ht htsign =>
    exists_leaves_eq_singleton hrest (mem_bisectAll hs ht) htsign
  by_cases hsign : s.HasSignChange f
  · obtain ⟨t, ht, htsign⟩ := exists_leaves_eq_singleton h hs hsign
    rw [ht, if_pos hsign]
    exact ⟨rfl, by simpa using htsign⟩
  rw [if_neg hsign]
  obtain ⟨hvalue, hsigns⟩ := Span.survivors_of_not_hasSignChange hsurvivors hsign
  by_cases hcross : s.leftHalf.HasSignChange f
  · rw [if_pos hcross] at hvalue ⊢
    obtain ⟨u, hu, husign⟩ := hleaf s.leftHalf (by simp [hvalue]) hcross
    obtain ⟨v, hv, hvsign⟩ := hleaf s.rightHalf (by simp [hvalue]) (hsigns _ (by simp [hvalue]))
    -- one leaf from each half
    have hleaves : s.leaves f (left + 1) = [u, v] := by
      rw [Span.leaves_succ, hvalue]
      simp [hu, hv]
    rw [hleaves]
    exact ⟨rfl, by simp [husign, hvsign]⟩
  · rw [if_neg hcross] at hvalue ⊢
    rw [Span.leaves_succ, hvalue]
    exact ⟨rfl, by simp⟩

/-! ## Searches -/

/-- A search evaluates in its rounds, and once more for each approximation. -/
theorem isSigned_bisectRounds_of_search {f : Float → Float} {settings : BracketSettings}
    {spans : List Span} {intervals : List Interval} {rounds : Nat}
    (hplan : settings.plan spans = .ok (intervals, rounds))
    (h : Transcript.IsSigned (findApproximations f settings spans).transcript) :
    Transcript.IsSigned (bisectRounds f rounds rounds (intervals.map (·.toSpan))).transcript := by
  unfold findApproximations at h
  rw [hplan, Run.bind_of_ok (Run.outcome_ofExcept _)] at h
  exact (Transcript.isSigned_append.1 (Transcript.isSigned_append.1 h).2).1

/-- How many approximations there are.  Take a search of one or more rounds that meets neither
    a zero of the function nor a point where it is undefined.  It succeeds with one block of
    approximations for each interval.  The block holds a single approximation when the function
    has opposite signs at the ends of the interval, and otherwise two of them or none, as the
    sign at the midpoint differs from that at the ends or not; the number of rounds does not
    matter.  Every approximation stands for a span with opposite signs at its ends. -/
theorem length_approximations (f : Float → Float) (settings : BracketSettings)
    (intervals : List Interval) (rounds : Nat) (hne : intervals ≠ [])
    (hrounds : settings.roundsFor intervals = .ok rounds) (hpos : 0 < rounds)
    (hsigned : ∀ p ∈ (findApproximations f settings (intervals.map (·.toSpan))).probes,
      p.result.isNaN = false ∧ (p.result == 0) = false) :
    (findApproximations f settings (intervals.map (·.toSpan))).outcome =
        .ok (intervals.flatMap fun i => i.approximations f settings.digits rounds) ∧
      ∀ i ∈ intervals,
        (i.approximations f settings.digits rounds).length =
            (if OppositeSigns (f i.lower) (f i.upper) then 1
            else if OppositeSigns (f i.lower) (f i.midpoint) then 2
            else 0) ∧
          ∀ s ∈ i.leaves f rounds, OppositeSigns (f s.lower) (f s.upper) := by
  have hplan : settings.plan (intervals.map (·.toSpan)) = .ok (intervals, rounds) := by
    rw [BracketSettings.plan_map, List.isEmpty_eq_false_iff.2 hne, hrounds]
    rfl
  refine ⟨?_, fun i hi => ?_⟩
  · rw [outcome_findApproximations_of_plan hplan, value_bracketRoots_eq_flatMap]
  · obtain ⟨left, rfl⟩ := Nat.exists_eq_add_of_le' hpos
    obtain ⟨hlength, hleaves⟩ := length_leaves_of_isSigned
      (isSigned_bisectRounds_of_search hplan hsigned) (List.mem_map.2 ⟨i, hi, rfl⟩)
    refine ⟨?_, hleaves⟩
    unfold Span.approximations
    rw [List.length_map, hlength]
    rfl

/-- Four rounds for `x² - 2` in an interval around both roots, in one around a single root and
    in one without a root. -/
theorem length_approximations_root_two :
    ∃ found,
      (findApproximations (fun x => x * x - 2) { rounds := some ⟨4, by decide⟩ }
        [⟨-2, 3⟩, ⟨0, 2⟩, ⟨3, 5⟩]).outcome = .ok found ∧ found.length = 3 := by
  obtain ⟨houtcome, hlength⟩ := length_approximations (fun x => x * x - 2)
    { rounds := some ⟨4, by decide⟩ }
    [⟨⟨-2, 3⟩, by decide⟩, ⟨⟨0, 2⟩, by decide⟩, ⟨⟨3, 5⟩, by decide⟩] 4 (by simp) rfl
    (by decide) (by decide +kernel)
  refine ⟨_, houtcome, ?_⟩
  simp only [List.forall_mem_cons] at hlength
  obtain ⟨⟨hboth, -⟩, ⟨hone, -⟩, ⟨hnone, -⟩, -⟩ := hlength
  simp only [List.flatMap_cons, List.flatMap_nil, List.length_append, List.length_nil, hboth,
    hone, hnone]
  decide +kernel

end ScalarRoots
