import ScalarRoots.Proofs.Binary64.Order
import ScalarRoots.Proofs.Bracketing.DepthFirst

/-!
# Requests that cannot be carried out

A search is refused when there is nothing to search in, when an interval is malformed, or when
neither a number of rounds nor a tolerance says when to stop; of several such reasons the
first one is given, and of several malformed intervals the first one is named.  All this is
decided before the function is looked at for the first time.  What is not refused succeeds,
whatever the function gives.

## Key results

- `Span.isMalformed_eq_false`: what is not malformed is a proper interval
- `mapM_ofBounds_eq`: of several malformed spans the first one is named
- `BracketSettings.plan_eq_error` / `BracketSettings.plan_eq_ok`: what a request leads to
- `BracketSettings.roundsFromLimits_eq`: settings never ask for no rounds at all
- `findApproximations_refused_iff`: a search fails exactly on malformed requests
-/

namespace ScalarRoots

open Binary64

/-! ## Malformed spans -/

namespace Span

/-- A bound that is not finite, or a lower bound that is not below the upper one. -/
def isMalformed (s : Span) : Bool :=
  !(s.lower.isFinite && s.upper.isFinite) || decide (s.upper ≤ s.lower)

/-- Finite bounds are in order unless the upper one is at most the lower one. -/
theorem isMalformed_eq_false {s : Span} : s.isMalformed = false ↔ s.IsProper := by
  unfold isMalformed IsProper
  rw [Bool.or_eq_false_iff, Bool.not_eq_false', Bool.and_eq_true, decide_eq_false_iff_not,
    and_assoc]
  refine and_congr_right fun hl => and_congr_right fun hu => ⟨fun h => ?_, fun h hle => ?_⟩
  · -- finite bounds are comparable
    by_contra hlt
    exact h (le_of_not_lt (isNaN_of_isFinite hl) (isNaN_of_isFinite hu) hlt)
  · exact Binary64.lt_irrefl _ (Binary64.lt_of_lt_of_le h hle)

/-- A malformed span is no proper interval. -/
theorem isMalformed_eq_true {s : Span} : s.isMalformed = true ↔ ¬ s.IsProper := by
  rw [← isMalformed_eq_false, Bool.not_eq_false]

end Span

/-- Spans are accepted one after the other, until the first malformed one, which is named. -/
theorem mapM_ofBounds_eq (spans : List Span) :
    (∃ s, spans.find? Span.isMalformed = some s ∧
        spans.mapM Interval.ofBounds = .error (.invalidBounds s.lower s.upper)) ∨
      ∃ intervals : List Interval, spans = intervals.map (·.toSpan) ∧
        spans.mapM Interval.ofBounds = .ok intervals := by
  induction spans with
  | nil => exact .inr ⟨[], rfl, rfl⟩
  | cons s rest ih =>
    rw [List.mapM_cons]
    cases hs : s.isMalformed with
    | true =>
      have hrefused : Interval.ofBounds s = .error (.invalidBounds s.lower s.upper) :=
        Interval.ofBounds_eq_error.2 ⟨Span.isMalformed_eq_true.1 hs, rfl⟩
      exact .inl ⟨s, List.find?_cons_of_pos hs, by rw [hrefused]; rfl⟩
    | false =>
      have haccepted : Interval.ofBounds s = .ok ⟨s, Span.isMalformed_eq_false.1 hs⟩ :=
        Interval.ofBounds_eq_ok.2 rfl
      rw [haccepted, List.find?_cons_of_neg (by simp [hs])]
      -- the first span is proper, so the rest decides
      rcases ih with ⟨t, hfirst, herror⟩ | ⟨intervals, rfl, hok⟩
      · exact .inl ⟨t, hfirst, by rw [herror]; rfl⟩
      · exact .inr ⟨⟨s, Span.isMalformed_eq_false.1 hs⟩ :: intervals, rfl, by rw [hok]; rfl⟩

/-- Proper intervals are not malformed as spans. -/
theorem find?_map_toSpan (intervals : List Interval) :
    (intervals.map (·.toSpan)).find? Span.isMalformed = none := by
  rw [List.find?_map, Option.map_eq_none_iff, List.find?_eq_none]
  exact fun i _ => Bool.eq_false_iff.1 (Span.isMalformed_eq_false.2 i.proper)

/-! ## Rounds -/

namespace BracketSettings

/-- How many rounds to run on some intervals, told from limits that nobody has checked.  A
    limit of no rounds at all is refused. -/
def roundsFromLimits (rounds : Option Nat) (tolerance : Option Float)
    (intervals : List Interval) : Except (BracketError ⊕ SettingError) Nat :=
  match rounds, tolerance with
  | none, none => .error (.inl .missingTermination)
  | some 0, _ => .error (.inr .noRounds)
  | some n, none => .ok n
  | rounds, some bound =>
    let narrowing := (intervals.map fun i => halvings i.width bound).foldl max 0
    .ok (max (rounds.getD 0) (min narrowing Algorithm.iterationCap))

/-- The limits of settings were checked when they were set, so no rounds at all are never
    asked for, and the rounds are those that the settings give. -/
theorem roundsFromLimits_eq (settings : BracketSettings) (intervals : List Interval) :
    roundsFromLimits (settings.rounds.map (·.toNat)) (settings.tolerance.map (·.bound))
        intervals =
      (settings.roundsFor intervals).mapError .inl := by
  unfold roundsFor
  -- the limit of the rounds is absent, or positive
  rcases settings.rounds with _ | ⟨_ | n, hpos⟩
  case some.zero => exact absurd hpos (Nat.lt_irrefl 0)
  case none =>
    cases settings.tolerance with
    | none => rfl
    | some t => exact congrArg Except.ok (Nat.zero_max _)
  case some.succ => cases settings.tolerance <;> rfl

/-- The rounds are settled as soon as one of the two limits is set. -/
theorem exists_roundsFor_eq_ok (settings : BracketSettings) (intervals : List Interval) :
    (∃ rounds, settings.roundsFor intervals = .ok rounds) ↔
      settings.rounds ≠ none ∨ settings.tolerance ≠ none := by
  unfold roundsFor
  cases settings.rounds <;> cases settings.tolerance <;> simp

/-! ## Plans -/

/-- What a request leads to: one of the three errors, or the intervals and the rounds. -/
theorem plan_cases (settings : BracketSettings) (spans : List Span) :
    (spans = [] ∧ settings.plan spans = .error .noIntervals) ∨
      (∃ s, spans.find? Span.isMalformed = some s ∧
        settings.plan spans = .error (.invalidBounds s.lower s.upper)) ∨
      (spans ≠ [] ∧ ∃ intervals : List Interval, spans = intervals.map (·.toSpan) ∧
        settings.plan spans = (settings.roundsFor intervals).map fun rounds =>
          (intervals, rounds)) := by
  rcases mapM_ofBounds_eq spans with ⟨s, hfirst, herror⟩ | ⟨intervals, rfl, -⟩
  · refine .inr (.inl ⟨s, hfirst, ?_⟩)
    have hne : spans.isEmpty = false := by
      cases spans with
      | nil => cases hfirst
      | cons t rest => rfl
    simp [plan, hne, herror]
    rfl
  · cases intervals with
    | nil => exact .inl ⟨rfl, rfl⟩
    | cons i rest =>
      exact .inr (.inr ⟨List.cons_ne_nil _ _, i :: rest, rfl, plan_map settings (i :: rest)⟩)

/-- A request is refused for want of intervals when there are none. -/
theorem plan_eq_noIntervals {settings : BracketSettings} {spans : List Span} :
    settings.plan spans = .error .noIntervals ↔ spans = [] := by
  refine ⟨fun h => ?_, fun h => by rw [h]; rfl⟩
  rcases plan_cases settings spans with ⟨hnil, -⟩ | ⟨s, -, hplan⟩ | ⟨-, intervals, -, hplan⟩
  · exact hnil
  · rw [hplan] at h
    cases h
  · rw [hplan, Except.map_eq_error, roundsFor_eq_error] at h
    exact nomatch h.2.2

/-- It is refused for the bounds of the first malformed span. -/
theorem plan_eq_invalidBounds {settings : BracketSettings} {spans : List Span} {l u : Float} :
    settings.plan spans = .error (.invalidBounds l u) ↔
      spans.find? Span.isMalformed = some ⟨l, u⟩ := by
  rcases plan_cases settings spans with ⟨rfl, hplan⟩ | ⟨s, hfirst, hplan⟩ |
    ⟨-, intervals, rfl, hplan⟩
  · rw [hplan]
    exact ⟨nofun, nofun⟩
  · rw [hplan, hfirst]
    cases s
    simp
  · rw [hplan, Except.map_eq_error, roundsFor_eq_error, find?_map_toSpan]
    exact ⟨fun h => (nomatch h.2.2), nofun⟩

/-- It is refused for want of a limit when the intervals are in order and none is set. -/
theorem plan_eq_missingTermination {settings : BracketSettings} {spans : List Span} :
    settings.plan spans = .error .missingTermination ↔
      (spans ≠ [] ∧ spans.find? Span.isMalformed = none) ∧
        settings.rounds = none ∧ settings.tolerance = none := by
  rcases plan_cases settings spans with ⟨rfl, hplan⟩ | ⟨s, hfirst, hplan⟩ |
    ⟨hne, intervals, rfl, hplan⟩
  · rw [hplan]
    exact ⟨nofun, fun h => absurd rfl h.1.1⟩
  · rw [hplan, hfirst]
    exact ⟨nofun, fun h => nomatch h.1.2⟩
  · -- only here the settings are asked for the rounds
    rw [hplan, Except.map_eq_error, roundsFor_eq_error, find?_map_toSpan]
    exact ⟨fun h => ⟨⟨hne, rfl⟩, h.1, h.2.1⟩, fun h => ⟨h.2.1, h.2.2, rfl⟩⟩

/-- Otherwise it is carried out. -/
theorem exists_plan_eq_ok {settings : BracketSettings} {spans : List Span} :
    (∃ p, settings.plan spans = .ok p) ↔
      (spans ≠ [] ∧ spans.find? Span.isMalformed = none) ∧
        (settings.rounds ≠ none ∨ settings.tolerance ≠ none) := by
  rcases plan_cases settings spans with ⟨rfl, hplan⟩ | ⟨s, hfirst, hplan⟩ |
    ⟨hne, intervals, rfl, hplan⟩
  · rw [hplan]
    exact ⟨nofun, fun h => absurd rfl h.1.1⟩
  · rw [hplan, hfirst]
    exact ⟨nofun, fun h => nomatch h.1.2⟩
  · -- the intervals are in order, so the limits decide
    have hrounds := exists_roundsFor_eq_ok settings intervals
    rw [hplan, find?_map_toSpan, ← hrounds]
    cases settings.roundsFor intervals with
    | error e => exact ⟨nofun, fun h => nomatch h.2⟩
    | ok rounds => exact ⟨fun _ => ⟨⟨hne, rfl⟩, rounds, rfl⟩, fun _ => ⟨_, rfl⟩⟩

end BracketSettings

/-! ## Searches -/

/-- A search fails when its plan does, and then it has looked at nothing. -/
theorem findApproximations_eq_error {f : Float → Float} {settings : BracketSettings}
    {spans : List Span} {e : BracketError} :
    (findApproximations f settings spans).outcome = .error e ↔
      settings.plan spans = .error e := by
  rw [outcome_findApproximations, Except.map_eq_error]

/-- A search succeeds when its request does; nothing else can fail. -/
theorem exists_findApproximations_eq_ok {f : Float → Float} {settings : BracketSettings}
    {spans : List Span} :
    (∃ found, (findApproximations f settings spans).outcome = .ok found) ↔
      ∃ p, settings.plan spans = .ok p := by
  rw [outcome_findApproximations]
  cases settings.plan spans with
  | error e => exact ⟨nofun, nofun⟩
  | ok p => exact ⟨fun _ => ⟨p, rfl⟩, fun _ => ⟨_, rfl⟩⟩

/-- A search that is refused records nothing. -/
theorem transcript_findApproximations_of_error {f : Float → Float} {settings : BracketSettings}
    {spans : List Span} {e : BracketError} (h : settings.plan spans = .error e) :
    (findApproximations f settings spans).transcript = [] := by
  unfold findApproximations
  rw [h]
  rfl

/-- For every function, all settings and all spans, a search fails exactly on malformed
    requests, and before it has looked at the function or logged anything.  It finds fault
    with an empty list first, then with the first span that has a bound which is not finite or
    bounds out of order, whatever the settings, and then with settings that have no limit.
    Otherwise it succeeds, whatever the values of the function.  The limits of the settings
    are such that a check for no rounds at all would never find any. -/
theorem findApproximations_refused_iff (f : Float → Float) (settings : BracketSettings)
    (spans : List Span) :
    let search := findApproximations f settings spans
    let wellFormed := spans ≠ [] ∧ spans.find? Span.isMalformed = none
    (search.outcome = .error .noIntervals ↔ spans = []) ∧
      (∀ l u, search.outcome = .error (.invalidBounds l u) ↔
        spans.find? Span.isMalformed = some ⟨l, u⟩) ∧
      (search.outcome = .error .missingTermination ↔
        wellFormed ∧ settings.rounds = none ∧ settings.tolerance = none) ∧
      ((∃ found, search.outcome = .ok found) ↔
        wellFormed ∧ (settings.rounds ≠ none ∨ settings.tolerance ≠ none)) ∧
      (∀ e, search.outcome = .error e → search.transcript = []) ∧
      ∀ intervals, BracketSettings.roundsFromLimits (settings.rounds.map (·.toNat))
          (settings.tolerance.map (·.bound)) intervals =
        (settings.roundsFor intervals).mapError .inl := by
  refine ⟨?_, fun l u => ?_, ?_, ?_, fun e h => ?_, settings.roundsFromLimits_eq⟩
  · exact findApproximations_eq_error.trans BracketSettings.plan_eq_noIntervals
  · exact findApproximations_eq_error.trans BracketSettings.plan_eq_invalidBounds
  · exact findApproximations_eq_error.trans BracketSettings.plan_eq_missingTermination
  · exact exists_findApproximations_eq_ok.trans BracketSettings.exists_plan_eq_ok
  · exact transcript_findApproximations_of_error (findApproximations_eq_error.1 h)

end ScalarRoots
