import ScalarRoots.Proofs.Binary64.Places
import ScalarRoots.Proofs.Bracketing.Survivors

/-!
# Rounded locations

The location of an approximation is the midpoint of a span that is left, rounded to decimal
places.  It is within a unit of the last place of the midpoint as long as the midpoint has at
most fifty-three binary places in front of that unit.  Larger midpoints are whole numbers of
those units or have no place for them, so there is nothing to round; but they are scaled up and
down all the same, which moves some of them.

## Key results

- `locations_stayNear`: how far locations are from midpoints
- `exists_location_moved`: a midpoint that is a whole number, and its location
-/

namespace ScalarRoots

open Binary64

/-- Rounded to at most fifteen decimal places a finite number stays finite, and within a unit of
    the last place if it has at most fifty-three binary places in front of it; beyond that, it
    stays within two parts in `2 ^ 53`.  So does the location of every approximation, seen from
    the midpoint of the span that it stands for, if the midpoint is finite. -/
theorem locations_stayNear (places : ℕ) (h : places ≤ maxDigits) :
    (∀ x : Float, x.isFinite = true → StaysNear places x (roundToPlaces x places)) ∧
    ∀ (f : Float → Float) (settings : BracketSettings) (spans : List Span)
      (intervals : List Interval) (rounds : ℕ), settings.digits = places →
      settings.plan spans = .ok (intervals, rounds) →
      ∃ found, (findApproximations f settings spans).outcome = .ok found ∧
        List.Forall₂ (fun s a => s.midpoint.isFinite = true →
            StaysNear places s.midpoint a.location)
          (bisectRounds f rounds rounds (intervals.map (·.toSpan))).value found := by
  refine ⟨fun x hx => staysNear_roundToPlaces hx h, ?_⟩
  intro f settings spans intervals rounds hdigits hplan
  refine ⟨_, outcome_findApproximations_of_plan hplan, ?_⟩
  rw [value_bracketRoots, List.forall₂_map_right_iff, List.forall₂_same]
  intro s _ hs
  show StaysNear places s.midpoint (roundToPlaces s.midpoint settings.digits)
  rw [hdigits]
  exact staysNear_roundToPlaces hs h

/-- A number that is rounded to five places, and a round for the root of two. -/
theorem locations_stayNear_root_two :
    |toRat (roundToPlaces 2.00048828 5) - toRat 2.00048828| ≤ 1 / 10 ^ 5 ∧
      ∃ found, (findApproximations (fun x => x * x - 2) { rounds := some ⟨1, by decide⟩ }
          [⟨0, 2⟩]).outcome = .ok found ∧
        List.Forall₂ (fun m a => StaysNear 5 m a.location) [1.5] found := by
  obtain ⟨hround, hsearch⟩ := locations_stayNear 5 (by decide)
  constructor
  · refine (hround 2.00048828 (by decide +kernel)).near ?_
    -- the number is between zero and three
    have hthree := toRat_ofNat (n := 3) (by decide)
    have hlow := (le_iff_toRat (x := 0) (y := 2.00048828) (by decide) (by decide +kernel)).1
      (by decide +kernel)
    have hhigh := (le_iff_toRat (x := 2.00048828) (y := Float.ofNat 3) (by decide +kernel)
      hthree.1).1 (by decide +kernel)
    rw [toRat_zero] at hlow
    rw [hthree.2] at hhigh
    rw [abs_of_nonneg hlow]
    push_cast at hhigh
    linarith
  · obtain ⟨found, hfound, hnear⟩ := hsearch (fun x => x * x - 2)
      { rounds := some ⟨1, by decide⟩ } [⟨0, 2⟩] [⟨⟨0, 2⟩, by decide⟩] 1 rfl rfl
    have hleft : (bisectRounds (fun x => x * x - 2) 1 1 [⟨0, 2⟩]).value = [⟨1, 2⟩] := by
      decide +kernel
    have hmid : Span.midpoint ⟨1, 2⟩ = 1.5 := by decide +kernel
    refine ⟨found, hfound, ?_⟩
    change List.Forall₂ _ (bisectRounds _ 1 1 [⟨0, 2⟩]).value found at hnear
    rw [hleft] at hnear
    cases hnear with
    | cons ha hrest =>
      cases hrest
      rw [hmid] at ha
      exact .cons (ha (by decide)) .nil

/-- Rounding to five places moves a whole number by sixteen.  The number is the root that is
    searched for and the midpoint of the only span that is left after a round; its location is
    another number. -/
theorem exists_location_moved :
    ∃ (s : Span) (a : Approximation),
      (bisectRounds (fun x => x - 95000000000000000) 1 1 [⟨0, 380000000000000000⟩]).value = [s] ∧
      (findApproximations (fun x => x - 95000000000000000) { rounds := some ⟨1, by decide⟩ }
        [⟨0, 380000000000000000⟩]).outcome = .ok [a] ∧
      s.midpoint = 95000000000000000 ∧ a.value = 0 ∧
      1 / 10 ^ 5 < |toRat a.location - toRat s.midpoint| := by
  refine ⟨⟨0, 190000000000000000⟩, ⟨95000000000000016, 0⟩, by decide +kernel, by decide +kernel,
    by decide +kernel, rfl, ?_⟩
  have hmid : Span.midpoint ⟨0, 190000000000000000⟩ = 95000000000000000 := by decide +kernel
  have hunits : units 95000000000000016 - units 95000000000000000 = (16 * 2 ^ 1074 : ℕ) := by
    decide +kernel
  have hone : unitsPerOne = 2 ^ 1074 := zpow_natCast 2 1074
  have hdiff : toRat 95000000000000016 - toRat 95000000000000000 = 16 := by
    rw [toRat, toRat, ← sub_div, ← Int.cast_sub, hunits, hone, Int.cast_natCast, Nat.cast_mul,
      Nat.cast_pow, Nat.cast_ofNat, Nat.cast_ofNat, mul_div_cancel_right₀ _ (by positivity)]
  rw [hmid, hdiff]
  norm_num

end ScalarRoots
