import ScalarRoots.Proofs.Batch.Seedwise
import ScalarRoots.Proofs.Binary64.Sum
import ScalarRoots.Proofs.Offsets.Size
import ScalarRoots.Proofs.Refinement.Degenerate

/-!
# Starts from seeds

The secant method and the method of false position start from a seed and from the seed with an
offset added.  They refuse the two if these are not distinct and finite.  Valid offsets are finite,
but that does not keep a sum from being too large, and a sum with a large seed may be the seed
itself.  These are the only seeds that are refused.

## Key results

- `TwoPoint.CanStart`: two points to start from
- `TwoPoint.start_eq_invalidPair`: all others are refused
- `TwoPoint.canStart_or`: a seed and the sum with an offset
- `SeedMethod.starts_of_offsets`: what becomes of the seeds of a batch
-/

namespace ScalarRoots

open Binary64

/-! ## Pairs of starts -/

namespace TwoPoint

variable {f : Float → Float}

/-- Two distinct finite numbers. -/
def CanStart (x₀ x₁ : Float) : Prop :=
  (x₀.isFinite = true ∧ x₁.isFinite = true) ∧ (x₀ == x₁) = false

/-- A start refuses pairs that are not, and no others. -/
theorem start_eq_invalidPair {x₀ x₁ a b : Float} :
    (start f x₀ x₁).outcome = .error (.invalidPair a b) ↔
      (a = x₀ ∧ b = x₁) ∧ ¬ CanStart x₀ x₁ := by
  -- the check of the start, as a proposition
  have hcond : (x₀.isFinite && x₁.isFinite && x₀ != x₁) = true ↔ CanStart x₀ x₁ := by
    simp only [CanStart, bne, Bool.and_eq_true, Bool.not_eq_true']
  constructor
  · intro h
    rcases start_error_cases h with ⟨hrefused, he⟩ | ⟨x, he⟩
    · cases he
      exact ⟨⟨rfl, rfl⟩, mt hcond.2 (Bool.eq_false_iff.1 hrefused)⟩
    · cases he
  · intro h
    obtain ⟨⟨rfl, rfl⟩, hrefused⟩ := h
    unfold start
    rw [if_neg (mt hcond.1 hrefused)]
    rfl

/-- The iterations are refused where their starts are. -/
theorem refine_eq_invalidPair {m : Scheme TwoPoint}
    (hstep : ∀ number s e, (m.step number s).outcome = .error e →
      (s.interceptPoint f).outcome = .error e)
    {settings : Settings} {x₀ x₁ a b : Float} :
    (refine m settings (start f x₀ x₁)).outcome = .error (.invalidPair a b) ↔
      (a = x₀ ∧ b = x₁) ∧ ¬ CanStart x₀ x₁ := by
  rw [← start_eq_invalidPair (f := f)]
  constructor
  · intro h
    rcases exists_visits_of_refine_error h with hstart | ⟨_, _, _, s, -, -, -, -, herror⟩
    · exact hstart
    · -- a step fails with a degenerate secant, or where the function is not finite
      rcases interceptPoint_eq_error.1 (hstep _ s _ herror) with ⟨-, hcause⟩ | ⟨x, -, hx⟩
      · cases hcause
      · cases (evaluatePoint_eq_error.1 hx).1
  · intro h
    exact Run.outcome_counted_eq_error.2 (Run.outcome_bind_eq_error.2 (.inl h))

/-- A finite number and the sum with another one are distinct and finite, unless the exact sum is
    too large or the other number is too small. -/
theorem canStart_or {x o : Float} (hx : x.isFinite = true) (ho : o.isFinite = true) :
    CanStart x (x + o) ∨ IsTooLarge (toRat x + toRat o) ∨
      (2 ^ 53 - 1) * |toRat o| ≤ |toRat x| := by
  by_cases hlarge : IsTooLarge (toRat x + toRat o)
  · exact .inr (.inl hlarge)
  · have hsafe := (not_lt.1 hlarge).trans largeBound_le_safeBound
    -- the sum is finite, so the two can only be equal
    cases hbeq : x == x + o with
    | true => exact .inr (.inr (le_abs_of_beq_add hx ho hbeq))
    | false => exact .inl ⟨⟨hx, (toRat_add hx ho hsafe).1⟩, hbeq⟩

end TwoPoint

/-! ## Batches -/

namespace SeedMethod

variable {m : SeedMethod} {settings : TwoPointSettings}

/-- The refinement of a seed is refused where the seed and the sum with its offset are no pair to
    start from. -/
theorem call_eq_invalidPair (hm : m = .secant settings ∨ m = .falsePosition settings)
    {f : Float → Float} {i : Nat} {x a b : Float} :
    (m.call f i x).outcome = .error (.invalidPair a b) ↔
      (a = x ∧ b = x + settings.offsets.offsets.nth i) ∧
        ¬ TwoPoint.CanStart x (x + settings.offsets.offsets.nth i) := by
  rcases hm with rfl | rfl
  · exact TwoPoint.refine_eq_invalidPair fun _ _ _ => Secant.step_eq_error.1
  · exact TwoPoint.refine_eq_invalidPair fun _ _ _ => FalsePosition.step_eq_error.1

/-- The first refinement that fails, told by the seeds. -/
theorem failFirst_calls {f : Float → Float} {xs : List Float} {i : Nat} {e : RefineError} :
    Run.FailFirst (m.calls f xs) i e ↔
      (∃ x, xs[i]? = some x ∧ (m.call f i x).outcome = .error e) ∧
        ∀ j < i, ∃ x r, xs[j]? = some x ∧ (m.call f j x).outcome = .ok r := by
  -- what the list of refinements has at a position, told by the seed there
  have hcall (j : Nat) (o : Except RefineError Report) :
      (m.calls f xs)[j]?.map (·.outcome) = some o ↔
        ∃ x, xs[j]? = some x ∧ (m.call f j x).outcome = o := by
    rw [calls, List.getElem?_mapIdx, Option.map_map]
    exact Option.map_eq_some_iff
  simp only [Run.FailFirst, hcall]
  exact and_congr_right fun _ => forall₂_congr fun _ _ => exists_comm

/-- The error that a session answers with is that of the first refinement that fails. -/
theorem answer_eq_error {f : Float → Float} {s : Session} {xs : List Float} {e : RefineError} :
    (s.refineSeeds (m.solver f) (.explicit xs)).value.2 = .error (.refinement e) ↔
      ∃ i, Run.FailFirst (m.calls f xs) i e := by
  constructor
  · intro h
    rcases Run.succeed_or_failFirst (m.calls f xs) with ⟨reports, hok⟩ | ⟨i, e', hfail⟩
    · -- if all seeds are refined, the answer is no error
      rw [refineSeeds_of_succeed hok] at h
      cases h
    · rw [refineSeeds_of_failFirst hfail] at h
      cases h
      exact ⟨i, hfail⟩
  · intro h
    obtain ⟨i, hfail⟩ := h
    rw [refineSeeds_of_failFirst hfail]

/-- What becomes of a batch of finite seeds, for the methods that start from two points.  All
    offsets are finite, pseudo-random ones are within their scale, and only those with a scale of
    at most the least normal number are zero.  A seed and the sum with its offset are distinct and
    finite, unless the exact sum is larger than half of where the finite numbers end, or the offset
    is smaller than the seed by a factor of about `2 ^ 53`.  The refinement of the seed is refused
    exactly if they are not, and a session answers that two starts are invalid exactly if such a
    seed comes first among those that cannot be refined. -/
theorem starts_of_offsets (hm : m = .secant settings ∨ m = .falsePosition settings)
    (f : Float → Float) (s : Session) {xs : List Float} (hxs : ∀ x ∈ xs, x.isFinite = true) :
    (∀ i, (settings.offsets.offsets.nth i).isFinite = true) ∧
      (∀ seed scale, settings.offsets.offsets = .seeded seed scale →
        ∀ i, Offsets.WithinScale scale (settings.offsets.offsets.nth i)) ∧
      (∀ i, (settings.offsets.offsets.nth i == 0) = true →
        ∃ seed scale, settings.offsets.offsets = .seeded seed scale ∧
          toRat scale ≤ 2 ^ (-1022 : ℤ)) ∧
      (∀ i x, xs[i]? = some x →
        (TwoPoint.CanStart x (x + settings.offsets.offsets.nth i) ∨
          IsTooLarge (toRat x + toRat (settings.offsets.offsets.nth i)) ∨
          (2 ^ 53 - 1) * |toRat (settings.offsets.offsets.nth i)| ≤ |toRat x|) ∧
        ∀ a b, (m.call f i x).outcome = .error (.invalidPair a b) ↔
          (a = x ∧ b = x + settings.offsets.offsets.nth i) ∧
            ¬ TwoPoint.CanStart x (x + settings.offsets.offsets.nth i)) ∧
      ∀ a b, (s.refineSeeds (m.solver f) (.explicit xs)).value.2 =
          .error (.refinement (.invalidPair a b)) ↔
        ∃ i, xs[i]? = some a ∧ b = a + settings.offsets.offsets.nth i ∧
          ¬ TwoPoint.CanStart a b ∧
          ∀ j < i, ∃ x r, xs[j]? = some x ∧ (m.call f j x).outcome = .ok r := by
  have hvalid := settings.offsets.valid
  have hfin := Offsets.isFinite_nth hvalid
  refine ⟨hfin, fun seed scale ho i => ?_, fun i => Offsets.exists_scale_of_nth_beq_zero hvalid,
    fun i x hx => ⟨?_, fun a b => call_eq_invalidPair hm⟩, fun a b => ?_⟩
  · rw [ho] at hvalid ⊢
    obtain ⟨hscale, hpos⟩ := Bool.and_eq_true_iff.1 hvalid
    exact Offsets.withinScale_nth seed hscale (decide_eq_true_iff.1 hpos) i
  · exact TwoPoint.canStart_or (hxs x (List.mem_of_getElem? hx)) (hfin i)
  · -- the first seed that fails is one that is refused, and all before it are refined
    rw [answer_eq_error]
    refine exists_congr fun i => ?_
    rw [failFirst_calls]
    constructor
    · intro h
      obtain ⟨⟨x, hx, herror⟩, hbefore⟩ := h
      obtain ⟨⟨rfl, rfl⟩, hrefused⟩ := (call_eq_invalidPair hm).1 herror
      exact ⟨hx, rfl, hrefused, hbefore⟩
    · intro h
      obtain ⟨hx, rfl, hrefused, hbefore⟩ := h
      exact ⟨⟨a, hx, (call_eq_invalidPair hm).2 ⟨⟨rfl, rfl⟩, hrefused⟩⟩, hbefore⟩

/-- Seeds next to one are refined from, with the default offsets. -/
theorem starts_of_offsets_one :
    (∀ x ∈ [(1 : Float)], x.isFinite = true) ∧
      Offsets.WithinScale 0.1 (Offsets.default.nth 0) ∧
      TwoPoint.CanStart 1 (1 + Offsets.default.nth 0) ∧
      ∀ (f : Float → Float) (s : Session) (a b : Float),
        (s.refineSeeds ((secant {}).solver f) (.explicit [1])).value.2 ≠
          .error (.refinement (.invalidPair a b)) := by
  have hxs : ∀ x ∈ [(1 : Float)], x.isFinite = true := List.forall_mem_singleton.2 (by decide)
  have hcan : TwoPoint.CanStart 1 (1 + Offsets.default.nth 0) :=
    ⟨⟨by decide, by decide +kernel⟩, by decide +kernel⟩
  have hm : secant {} = secant {} ∨ secant {} = falsePosition {} := .inl rfl
  have h f s := starts_of_offsets hm f s hxs
  refine ⟨hxs, (h id {}).2.1 _ _ rfl 0, hcan, fun f s a b herror => ?_⟩
  -- a refused seed would have to be the only one there is
  obtain ⟨i, hx, hb, hrefused, -⟩ := ((h f s).2.2.2.2 a b).1 herror
  obtain ⟨hi, rfl⟩ := List.getElem?_eq_some_iff.1 hx
  obtain rfl : i = 0 := Nat.lt_one_iff.1 hi
  exact hrefused (hb ▸ hcan)

/-- Valid offsets do not move every seed.  The seed `2 ^ 60` with the first default offset added is
    the seed itself, which both methods refuse, and the first offset of some stream with the least
    positive scale is zero. -/
theorem exists_start_refused :
    let seed := Float.ofBits 0x43b0000000000000
    (seed.isFinite = true ∧ ∀ m, m = secant {} ∨ m = falsePosition {} →
      ∀ (f : Float → Float) (s : Session),
        (s.refineSeeds (m.solver f) (.explicit [seed])).value.2 =
          .error (.refinement (.invalidPair seed seed))) ∧
      (Offsets.seeded 1 (Float.ofBits 1)).isValid = true ∧
      (Offsets.seeded 1 (Float.ofBits 1)).nth 0 = 0 := by
  intro seed
  -- the offset is less than half of the distance to the next number
  have hsum : seed = seed + Offsets.default.nth 0 := by decide +kernel
  have hrefused : ¬ TwoPoint.CanStart seed (seed + Offsets.default.nth 0) := by
    rw [← hsum]
    exact fun h => Bool.eq_false_iff.1 h.2 (by decide)
  refine ⟨⟨by decide, fun m hm f s => answer_eq_error.2 ⟨0, failFirst_calls.2 ⟨⟨seed, rfl, ?_⟩,
    fun j hj => absurd hj (Nat.not_lt_zero j)⟩⟩⟩, by decide, by decide +kernel⟩
  exact (call_eq_invalidPair hm).2 ⟨⟨rfl, hsum⟩, hrefused⟩

end SeedMethod

end ScalarRoots
