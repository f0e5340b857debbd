import ScalarRoots.Proofs.Refinement.Iterates

/-!
# What a refinement insists on

A method looks at every number before it goes on with it.  The function and its derivatives have
to be finite where they are evaluated, a residual divided by a slope has to be finite, and so has
the location that a step leads to; the rise of a secant must not be zero.  A `Check` is one such
look, together with the error that it ends in.

The checks of a step are listed in the order in which the step makes them, and those of a
refinement along its course.  A run that makes the checks of a list fails at the first one that
does not pass, and has evaluated what was looked at up to there.

## Key results

- `Check`: what is looked at, when it passes, and which error is due when it does not
- `Run.Makes`: a run makes the checks of a list, up to the first failure
- `Run.Makes.bind`: what is bound to a run makes its checks after those of the run
- `Refinement.makes_start` / `Refinement.makes_step`: the checks of the starts and of the steps
- `Refinement.makes_run`: the checks of a refinement
-/

namespace ScalarRoots

/-- Something that a method insists on, with the error that is due otherwise. -/
inductive Check where
  /-- The result of an evaluation is finite. -/
  | evaluation (p : Probe)
  /-- A quotient is finite. -/
  | quotient (numerator denominator : Float) (e : RefineError)
  /-- A denominator is not zero. -/
  | denominator (d : Float) (e : RefineError)
  /-- The location to go to is finite. -/
  | location (x : Float) (e : RefineError)

namespace Check

/-- Evaluating `g`, which is the given quantity, at `x` gives a finite result. -/
abbrev finite (q : Quantity) (g : Float → Float) (x : Float) : Check := .evaluation ⟨q, x, g x⟩

/-- Whether what is looked at is as it should be. -/
def passes : Check → Bool
  | evaluation p => p.result.isFinite
  | quotient n d _ => (n / d).isFinite
  | denominator d _ => !(d == 0)
  | location x _ => x.isFinite

/-- The error that is due when it is not. -/
def error : Check → RefineError
  | evaluation p => .notFinite p.quantity p.location p.result
  | quotient _ _ e => e
  | denominator _ e => e
  | location _ e => e

/-- The evaluation that is looked at, if it is one. -/
def probe? : Check → Option Probe
  | evaluation p => some p
  | _ => none

/-! ## Lists of checks -/

/-- The first check that does not pass. -/
def firstFailure? (cs : List Check) : Option Check := cs.find? (!·.passes)

/-- The checks that are made: all up to the first failure, the failing one included. -/
def made : List Check → List Check
  | [] => []
  | c :: cs => c :: if c.passes then made cs else []

/-- The evaluations among some checks. -/
def probes (cs : List Check) : List Probe := cs.filterMap probe?

variable {cs ds : List Check} {c : Check}

/-- The evaluations among two lists are those of the first and then those of the second. -/
@[simp] theorem probes_append (cs ds : List Check) : probes (cs ++ ds) = probes cs ++ probes ds :=
  List.filterMap_append

/-- There is no first failure exactly when every check passes. -/
theorem firstFailure?_eq_none : firstFailure? cs = none ↔ ∀ c ∈ cs, c.passes = true := by
  simp [firstFailure?]

/-- The first failure comes after checks that pass. -/
theorem firstFailure?_eq_some :
    firstFailure? cs = some c ↔
      c.passes = false ∧
        ∃ before after, cs = before ++ c :: after ∧ ∀ b ∈ before, b.passes = true := by
  simp [firstFailure?, List.find?_eq_some_iff_append]

/-- Behind checks that pass, the first failure is that of the others. -/
theorem firstFailure?_append_of_passes (h : ∀ c ∈ cs, c.passes = true) :
    firstFailure? (cs ++ ds) = firstFailure? ds := by
  unfold firstFailure?
  -- no check of the first list is found
  rw [List.find?_append, show cs.find? (!·.passes) = none from firstFailure?_eq_none.2 h,
    Option.none_or]

/-- The first failure stays the same, whatever comes later. -/
theorem firstFailure?_append_of_fails (h : firstFailure? cs = some c) :
    firstFailure? (cs ++ ds) = some c := by
  unfold firstFailure? at *
  rw [List.find?_append, h, Option.some_or]

/-- Checks that pass are all made, and so are those behind them that would be made alone. -/
theorem made_append_of_passes (h : ∀ c ∈ cs, c.passes = true) :
    made (cs ++ ds) = cs ++ made ds := by
  -- one check after the other passes and is left behind
  induction cs with
  | nil => rfl
  | cons c cs ih =>
    rw [List.forall_mem_cons] at h
    simp [made, h.1, ih h.2]

/-- When every check passes, all of them are made. -/
theorem made_of_passes (h : ∀ c ∈ cs, c.passes = true) : made cs = cs := by
  simpa [made] using @made_append_of_passes cs [] h

/-- What comes after a failure is not looked at. -/
theorem made_append_cons_of_fails (h : ∀ c ∈ cs, c.passes = true) (hc : c.passes = false) :
    made (cs ++ c :: ds) = cs ++ [c] := by
  -- the checks before pass, and the failing one is the last
  simp [made_append_of_passes h, made, hc]

/-- With a failure among the first checks, none of the later ones is made. -/
theorem made_append_of_fails (h : firstFailure? cs = some c) : made (cs ++ ds) = made cs := by
  obtain ⟨hc, before, after, rfl, hbefore⟩ := firstFailure?_eq_some.1 h
  -- either way the list ends with the check that fails
  rw [made_append_cons_of_fails hbefore hc, List.append_assoc, List.cons_append,
    made_append_cons_of_fails hbefore hc]

end Check

/-! ## Runs -/

namespace Run

open Check

variable {α β : Type} {cs ds : List Check} {x : Run RefineError α}

/-- The run makes the checks in order.  It fails at the first one that does not pass, if there is
    one, and it evaluates what is looked at up to there. -/
structure Makes (x : Run RefineError α) (cs : List Check) : Prop where
  outcome_eq_error : ∀ e, x.outcome = .error e ↔ (firstFailure? cs).map Check.error = some e
  probes_eq : x.probes = Check.probes (made cs)

namespace Makes

/-- A run that succeeds has made all of its checks. -/
theorem passes (h : x.Makes cs) {a : α} (ha : x.outcome = .ok a) : ∀ c ∈ cs, c.passes = true := by
  rw [← firstFailure?_eq_none]
  cases hc : firstFailure? cs with
  | none => rfl
  | some c =>
    -- a failure would be an error of the run, which has none
    have herror := (h.outcome_eq_error c.error).2 (by rw [hc]; rfl)
    rw [ha] at herror
    cases herror

/-- So it has evaluated whatever its checks look at. -/
theorem probes_eq_of_ok (h : x.Makes cs) {a : α} (ha : x.outcome = .ok a) :
    x.probes = Check.probes cs := by
  rw [h.probes_eq, made_of_passes (h.passes ha)]

/-- A run that fails does so at the first check that does not pass. -/
theorem exists_failure (h : x.Makes cs) {e : RefineError} (he : x.outcome = .error e) :
    ∃ before c after, cs = before ++ c :: after ∧ (∀ b ∈ before, b.passes = true) ∧
      c.passes = false ∧ c.error = e ∧ x.probes = Check.probes (before ++ [c]) := by
  obtain ⟨c, hc, rfl⟩ := Option.map_eq_some_iff.1 ((h.outcome_eq_error e).1 he)
  obtain ⟨hfails, before, after, rfl, hbefore⟩ := firstFailure?_eq_some.1 hc
  refine ⟨before, c, after, rfl, hbefore, hfails, rfl, ?_⟩
  rw [h.probes_eq, made_append_cons_of_fails hbefore hfails]

/-- What neither fails nor evaluates makes no checks. -/
theorem of_ok {a : α} (ha : x.outcome = .ok a) (hx : x.probes = []) : x.Makes [] where
  outcome_eq_error e := by simp [ha, firstFailure?]
  probes_eq := hx

/-- A value takes no checks. -/
theorem pure (a : α) : (Pure.pure a : Run RefineError α).Makes [] := of_ok rfl rfl

/-- A record takes no checks either. -/
theorem log (n : Note) : (liftM (ScalarRoots.log n) : Run RefineError Unit).Makes [] :=
  of_ok rfl rfl

/-- A run and what is bound to it make their checks one after the other. -/
theorem bind {f : α → Run RefineError β} (hx : x.Makes cs)
    (hf : ∀ a, x.outcome = .ok a → (f a).Makes ds) : (x >>= f).Makes (cs ++ ds) := by
  cases ha : x.outcome with
  | ok a =>
    -- the first run succeeds, so its checks pass and the others are made too
    have hpass := hx.passes ha
    refine ⟨fun e => ?_, ?_⟩
    · rw [firstFailure?_append_of_passes hpass, ← (hf a ha).outcome_eq_error, bind_of_ok ha]
    · rw [probes_bind_of_ok ha, made_append_of_passes hpass, Check.probes_append,
        hx.probes_eq_of_ok ha, (hf a ha).probes_eq]
  | error e =>
    -- what comes after the failure does not matter
    obtain ⟨c, hc, rfl⟩ := Option.map_eq_some_iff.1 ((hx.outcome_eq_error e).1 ha)
    rw [bind_of_error ha]
    refine ⟨fun e' => ?_, ?_⟩
    · rw [firstFailure?_append_of_fails hc]
      simp
    · rw [made_append_of_fails hc]
      exact hx.probes_eq

/-- Going on with a value takes no further checks. -/
theorem map_bind {f : α → Run RefineError β} (hx : x.Makes cs)
    (hf : ∀ a, (f a).Makes []) : (x >>= f).Makes cs := by
  have hbind := hx.bind fun a _ => hf a
  rwa [List.append_nil] at hbind

/-- A counter does not interfere with the checks. -/
theorem counted (hx : x.Makes cs) (complete : α → Nat → β) :
    (x.counted complete).Makes cs where
  outcome_eq_error e := by rw [outcome_counted_eq_error, hx.outcome_eq_error]
  probes_eq := hx.probes_eq

/-- A check that passes, of something that is not an evaluation, leaves no trace. -/
theorem cons_of_passes (c : Check) (hp : c.probe? = none) (hc : c.passes = true)
    (hx : x.Makes cs) : x.Makes (c :: cs) where
  outcome_eq_error e := by simp [hx.outcome_eq_error, firstFailure?, hc]
  probes_eq := by simp [hx.probes_eq, made, hc, Check.probes, hp]

/-- The error of a check that fails is due, and the later checks are not made. -/
theorem throw_of_fails (c : Check) (hp : c.probe? = none) (hc : c.passes = false) :
    (throw c.error : Run RefineError α).Makes (c :: cs) where
  outcome_eq_error e := by simp [firstFailure?, hc]
  probes_eq := by
    -- the failing check is the last one made, and it evaluates nothing
    simp only [made, hc, Check.probes, Bool.false_eq_true, if_false]
    simp [hp]
    rfl

/-- A value that is given if a check passes, and the error that is due otherwise. -/
theorem guarded (c : Check) (hp : c.probe? = none) (a : α) :
    (if c.passes = true then Pure.pure a else throw c.error : Run RefineError α).Makes [c] := by
  by_cases hc : c.passes = true
  · rw [if_pos hc]
    exact (Makes.pure a).cons_of_passes c hp hc
  · rw [if_neg hc]
    exact throw_of_fails c hp (Bool.eq_false_iff.2 hc)

/-- A run that comes behind a check. -/
theorem check (c : Check) (hp : c.probe? = none) (hx : x.Makes cs) :
    (if (!c.passes) = true then (throw c.error : Run RefineError PUnit) >>= fun _ => x
      else x).Makes (c :: cs) := by
  cases hc : c.passes with
  | true => exact hx.cons_of_passes c hp hc
  | false => exact throw_of_fails c hp hc

/-- An evaluation has one check, on its result. -/
theorem evaluate (q : Quantity) (g : Float → Float) (x : Float) :
    (ScalarRoots.evaluate q g x).Makes [.finite q g x] := by
  refine ⟨fun e => ?_, ?_⟩
  · by_cases h : (g x).isFinite = true <;>
      simp [outcome_evaluate, firstFailure?, Check.passes, Check.error, h]
  -- the value is evaluated before it is looked at, so it is on record in both cases
  · by_cases h : (g x).isFinite = true <;>
      simp [probes_evaluate, made, Check.probes, Check.probe?, Check.passes, h]

/-- To evaluate the target function at a point takes the same check. -/
theorem evaluatePoint (f : Float → Float) (x : Float) :
    (ScalarRoots.evaluatePoint f x).Makes [.finite .value f x] :=
  (evaluate .value f x).map_bind fun _ => .pure _

end Makes

end Run

/-! ## Steps -/

/-- The checks of a Newton step. -/
def newtonChecks (df : Float → Float) (p : Point Float) : List Check :=
  [.finite .slope df p.x, .quotient p.y (df p.x) (.newtonStep p.x (df p.x))]

/-- A Newton step checks the slope and then the quotient. -/
theorem makes_newtonStep (df : Float → Float) (p : Point Float) :
    (newtonStep df p).Makes (newtonChecks df p) := by
  refine (Run.Makes.evaluate .slope df p.x).bind fun slope hslope => ?_
  -- the slope that is divided by is the one just checked
  obtain ⟨rfl, -⟩ := evaluate_eq_ok.1 hslope
  exact .guarded (.quotient p.y (df p.x) (.newtonStep p.x (df p.x))) rfl _

namespace Newton

/-- The checks of a step. -/
def checks (f df : Float → Float) (s : OnePoint) : List Check :=
  newtonChecks df s.current ++ [.finite .value f (s.current.x - s.current.y / df s.current.x)]

/-- A step of Newton's method checks the Newton step and then the value where it leads to. -/
theorem makes_step (f df : Float → Float) (number : Nat) (s : OnePoint) :
    (step f df number s).Makes (checks f df s) := by
  refine (makes_newtonStep df s.current).bind fun newton hnewton => ?_
  obtain ⟨rfl, -⟩ := newtonStep_eq_ok.1 hnewton
  exact (Run.Makes.evaluatePoint f _).map_bind fun _ => (Run.Makes.log _).map_bind fun _ => .pure _

end Newton

namespace Chebyshev

/-- The location that a step leads to. -/
def target (df d2f : Float → Float) (p : Point Float) : Float :=
  corrected p ⟨df p.x, p.y / df p.x⟩ (d2f p.x)

/-- The checks of a step.  Those of the correction come after those of the Newton step. -/
def checks (f df d2f : Float → Float) (s : OnePoint) : List Check :=
  newtonChecks df s.current ++
    [.finite .curvature d2f s.current.x,
      .location (target df d2f s.current) (.correctedStep s.current.x),
      .finite .value f (target df d2f s.current)]

/-- A step of Chebyshev's method also checks the curvature, and the location it leads to before the
    value there. -/
theorem makes_step (f df d2f : Float → Float) (t : Tolerance) (number : Nat) (s : OnePoint) :
    (step f df d2f t number s).Makes (checks f df d2f s) := by
  refine (makes_newtonStep df s.current).bind fun newton hnewton => ?_
  obtain ⟨rfl, -⟩ := newtonStep_eq_ok.1 hnewton
  refine (Run.Makes.evaluate .curvature d2f s.current.x).bind fun curvature hcurvature => ?_
  obtain ⟨rfl, -⟩ := evaluate_eq_ok.1 hcurvature
  refine .check (.location _ (.correctedStep _)) rfl ?_
  refine (Run.Makes.evaluatePoint f _).map_bind fun _ => ?_
  -- the two ends of a step make no difference to what was checked
  split <;> exact (Run.Makes.log _).map_bind fun _ => .pure _

end Chebyshev

namespace Multipoint

/-- A residual divided by a slope has to be finite. -/
theorem makes_checkedRatio (y x slope : Float) :
    (checkedRatio y x slope).Makes [.quotient y slope (.vanishingSlope x slope)] :=
  .guarded (.quotient y slope (.vanishingSlope x slope)) rfl _

/-- The checks on the way there.  Both rules divide by a slope twice: the second time by that
    at half a Newton step, or once more by that at the point itself. -/
def locationChecks (f df : Float → Float) (rule : MultipointRule) (p : Point Float) :
    List Check :=
  let z := midway df rule p
  [.finite .slope df p.x, .quotient p.y (df p.x) (.vanishingSlope p.x (df p.x))] ++
    match rule with
    | .midpointDerivative =>
      [.finite .slope df z, .quotient p.y (df z) (.vanishingSlope z (df z))]
    | .predictorCorrector =>
      [.finite .value f z, .quotient (f z) (df p.x) (.vanishingSlope p.x (df p.x))]

/-- Both rules check the slope and the quotient at the point before what they look at midway. -/
theorem makes_nextLocation (f df : Float → Float) (rule : MultipointRule) (p : Point Float) :
    (nextLocation f df rule p).Makes (locationChecks f df rule p) := by
  refine (Run.Makes.evaluate .slope df p.x).bind fun slope hslope => ?_
  obtain ⟨rfl, -⟩ := evaluate_eq_ok.1 hslope
  refine (makes_checkedRatio p.y p.x (df p.x)).bind fun newton hnewton => ?_
  obtain rfl := checkedRatio_eq_ok hnewton
  -- the rules agree so far; the second slope or value is looked at midway
  cases rule with
  | midpointDerivative =>
    refine (Run.Makes.evaluate .slope df _).bind fun slope hslope => ?_
    obtain ⟨rfl, -⟩ := evaluate_eq_ok.1 hslope
    exact (makes_checkedRatio p.y _ _).map_bind fun _ => .pure _
  | predictorCorrector =>
    refine (Run.Makes.evaluatePoint f _).bind fun predicted hpredicted => ?_
    obtain ⟨rfl, -⟩ := evaluatePoint_eq_ok.1 hpredicted
    exact (makes_checkedRatio _ p.x (df p.x)).map_bind fun _ => .pure _

/-- The checks of a step. -/
def checks (f df : Float → Float) (rule : MultipointRule) (s : OnePoint) : List Check :=
  locationChecks f df rule s.current ++ [.finite .value f (target f df rule s.current)]

/-- A step of the multipoint iteration checks its way to the target and then the value there. -/
theorem makes_step (f df : Float → Float) (rule : MultipointRule) (number : Nat) (s : OnePoint) :
    (step f df rule number s).Makes (checks f df rule s) := by
  refine (makes_nextLocation f df rule s.current).bind fun x hx => ?_
  obtain rfl := eq_target_of_nextLocation hx
  exact (Run.Makes.evaluatePoint f _).map_bind fun _ => (Run.Makes.log _).map_bind fun _ => .pure _

end Multipoint

namespace TwoPoint

/-- The zero of the line through the two points, as it is computed. -/
def target (s : TwoPoint) : Float := s.newer.x - s.newer.y * s.gap / (s.newer.y - s.older.y)

/-- The checks of a step to the intercept.  The first two have the same error. -/
def checks (f : Float → Float) (s : TwoPoint) : List Check :=
  [.denominator (s.newer.y - s.older.y) (.degenerateSecant s.older.x s.newer.x),
    .location s.target (.degenerateSecant s.older.x s.newer.x), .finite .value f s.target]

/-- There is no intercept when one of these two fails. -/
theorem intercept_eq_none_iff {s : TwoPoint} :
    s.intercept = none ↔ (s.newer.y - s.older.y == 0) = true ∨ s.target.isFinite = false := by
  unfold intercept target
  by_cases hrise : (s.newer.y - s.older.y == 0) = true <;> simp [hrise]

/-- The intercept is evaluated after the rise and the location have been checked. -/
theorem makes_interceptPoint (f : Float → Float) (s : TwoPoint) :
    (s.interceptPoint f).Makes (s.checks f) := by
  unfold interceptPoint checks
  cases hx : s.intercept with
  | some x =>
    -- an intercept means that both checks pass, and its value is evaluated
    obtain ⟨hfin, hrise, rfl⟩ := intercept_eq_some hx
    have hpoint := (Run.Makes.evaluatePoint f s.target).cons_of_passes
      (.location s.target (.degenerateSecant s.older.x s.newer.x)) rfl hfin
    exact hpoint.cons_of_passes _ rfl (by simp [Check.passes, hrise])
  | none =>
    -- without one, either check may be the first that fails
    by_cases hrise : (s.newer.y - s.older.y == 0) = true
    · exact Run.Makes.throw_of_fails (.denominator _ (.degenerateSecant _ _)) rfl
        (by simp [Check.passes, hrise])
    · have hfin := (intercept_eq_none_iff.1 hx).resolve_left hrise
      exact (Run.Makes.throw_of_fails (.location s.target (.degenerateSecant _ _)) rfl
        hfin).cons_of_passes _ rfl (by simp [Check.passes, hrise])

end TwoPoint

/-- A step of the secant method checks no more than the intercept. -/
theorem Secant.makes_step (f : Float → Float) (number : Nat) (s : TwoPoint) :
    (step f number s).Makes (s.checks f) :=
  (s.makes_interceptPoint f).map_bind fun _ => (Run.Makes.log _).map_bind fun _ => .pure _

/-- Nor does a step of false position, whichever points it keeps. -/
theorem FalsePosition.makes_step (f : Float → Float) (number : Nat) (s : TwoPoint) :
    (step f number s).Makes (s.checks f) :=
  (s.makes_interceptPoint f).map_bind fun _ => (Run.Makes.log _).map_bind fun _ => .pure _

namespace Muller

/-- The location that a parabola leads to from its base point. -/
def target (x : Float) (q : Parabola Float) : Float :=
  x + q.nearestZero (discriminantRoot q.discriminant).value

/-- The checks of a step.  Points that do not determine a parabola end the iteration, but they
    do not make it fail. -/
def checks (f : Float → Float) (s : ThreePoint) : List Check :=
  match parabola? s with
  | none => []
  | some q =>
    [.location (target s.newest.x q) (.parabolaStep s.newest.x q.a q.b q.c),
      .finite .value f (target s.newest.x q)]

/-- A step of Muller's method checks the location that the parabola leads to, and then the value
    there. -/
theorem makes_step (f : Float → Float) (number : Nat) (s : ThreePoint) :
    (step f number s).Makes (checks f s) := by
  unfold step checks
  cases parabola? s with
  | none => exact (Run.Makes.log _).map_bind fun _ => .pure _
  | some q =>
    -- what is said of the discriminant is no evaluation and cannot fail
    have hroot : (liftM (discriminantRoot q.discriminant) : Run RefineError Float).Makes [] :=
      .of_ok rfl (probes_discriminantRoot _)
    refine hroot.bind fun root h => ?_
    cases h
    refine .check (.location (target s.newest.x q) (.parabolaStep _ _ _ _)) rfl ?_
    exact (Run.Makes.evaluatePoint f _).map_bind fun _ =>
      (Run.Makes.log _).map_bind fun _ => .pure _

end Muller

/-! ## Starts -/

/-- A finite start is accepted and its value checked. -/
theorem OnePoint.makes_start (f : Float → Float) {x₀ : Float} (h : x₀.isFinite = true) :
    (start f x₀).Makes [.finite .value f x₀] := by
  unfold start
  rw [if_pos h]
  exact (Run.Makes.evaluatePoint f x₀).map_bind fun _ => .pure _

/-- Two finite starts that differ are accepted, and their values are checked in order. -/
theorem TwoPoint.makes_start (f : Float → Float) {x₀ x₁ : Float} (h₀ : x₀.isFinite = true)
    (h₁ : x₁.isFinite = true) (hne : (x₀ == x₁) = false) :
    (start f x₀ x₁).Makes [.finite .value f x₀, .finite .value f x₁] := by
  unfold start
  rw [if_pos (by simp [h₀, h₁, bne, hne])]
  exact (Run.Makes.evaluatePoint f x₀).bind fun _ _ =>
    (Run.Makes.evaluatePoint f x₁).map_bind fun _ => .pure _

/-- Three finite starts are accepted as well.  They need not differ. -/
theorem Muller.makes_start (f : Float → Float) {x₀ x₁ x₂ : Float} (h₀ : x₀.isFinite = true)
    (h₁ : x₁.isFinite = true) (h₂ : x₂.isFinite = true) :
    (start f x₀ x₁ x₂).Makes
      [.finite .value f x₀, .finite .value f x₁, .finite .value f x₂] := by
  unfold start
  rw [if_pos (by simp [h₀, h₁, h₂])]
  exact (Run.Makes.evaluatePoint f x₀).bind fun _ _ => (Run.Makes.evaluatePoint f x₁).bind
    fun _ _ => (Run.Makes.evaluatePoint f x₂).map_bind fun _ => .pure _

/-! ## Iterations -/

variable {σ : Type}

/-- The checks of an iteration with `left` steps to go and `done` steps taken: those of the step
    from every state at which it goes on. -/
def Scheme.checks (m : Scheme σ) (stepChecks : σ → List Check) :
    (left done : Nat) → σ → List Check
  | 0, _, _ => []
  | left + 1, done, s =>
    match m.criterion? s with
    | some _ => []
    | none =>
      stepChecks s ++
        match (m.step (done + 1) s).outcome with
        | .ok (.moved next) => m.checks stepChecks left (done + 1) next
        | _ => []

/-- An iteration makes the checks of its steps, if every step makes its own. -/
theorem makes_iterate {m : Scheme σ} {stepChecks : σ → List Check}
    (hstep : ∀ number s, (m.step number s).Makes (stepChecks s)) (start : Stencil)
    (left done : Nat) (best : Point Float) (s : σ) :
    (iterate m start left done best s).Makes (m.checks stepChecks left done s) := by
  -- Induction along the iteration; an end of it makes no check.
  refine iterate_induction (motive := fun left done _ s x =>
    x.Makes (m.checks stepChecks left done s)) ?met ?exhausted ?step left done best s
  case met =>
    intro left done best s c hc
    cases left <;> simp only [Scheme.checks, hc] <;> exact .pure _
  case exhausted => exact fun _ _ _ _ => (Run.Makes.log _).map_bind fun _ => .pure _
  case step =>
    intro left done best s hc ih
    simp only [Scheme.checks, hc]
    refine (hstep (done + 1) s).bind fun advance hadvance => ?_
    rw [hadvance]
    -- only a step that moves on has further checks after it
    cases advance with
    | moved next => exact ih _ next
    | accepted next => exact .pure _
    | stuck => exact .pure _

/-- The checks of a refinement: those of its start, and those of the iteration from there. -/
def refineChecks (m : Scheme σ) (settings : Settings) (start : Run RefineError σ)
    (startChecks : List Check) (stepChecks : σ → List Check) : List Check :=
  startChecks ++
    match start.outcome with
    | .ok s => m.checks stepChecks (m.algorithm.budget (settings.iterations.map (·.toNat))) 0 s
    | .error _ => []

/-- A refinement makes the checks of its start and then those of its iteration. -/
theorem makes_refine {m : Scheme σ} {settings : Settings} {start : Run RefineError σ}
    {startChecks : List Check} {stepChecks : σ → List Check} (hstart : start.Makes startChecks)
    (hstep : ∀ number s, (m.step number s).Makes (stepChecks s)) :
    (refine m settings start).Makes (refineChecks m settings start startChecks stepChecks) := by
  refine Run.Makes.counted (hstart.bind fun s hs => ?_) _
  rw [hs]
  exact makes_iterate hstep _ _ _ _ _

/-! ## The six methods -/

namespace Refinement

/-- A start that the method accepts: finite locations, and two distinct ones for the methods
    from two points. -/
def CanStart : Refinement → Prop
  | newton _ x₀ => x₀.isFinite = true
  | secant x₀ x₁ => x₀.isFinite = true ∧ x₁.isFinite = true ∧ (x₀ == x₁) = false
  | falsePosition x₀ x₁ => x₀.isFinite = true ∧ x₁.isFinite = true ∧ (x₀ == x₁) = false
  | muller x₀ x₁ x₂ => x₀.isFinite = true ∧ x₁.isFinite = true ∧ x₂.isFinite = true
  | chebyshev _ _ x₀ => x₀.isFinite = true
  | multipoint _ _ x₀ => x₀.isFinite = true

/-- The checks of an accepted start. -/
def startChecks (f : Float → Float) : Refinement → List Check
  | newton _ x₀ => [.finite .value f x₀]
  | secant x₀ x₁ => [.finite .value f x₀, .finite .value f x₁]
  | falsePosition x₀ x₁ => [.finite .value f x₀, .finite .value f x₁]
  | muller x₀ x₁ x₂ => [.finite .value f x₀, .finite .value f x₁, .finite .value f x₂]
  | chebyshev _ _ x₀ => [.finite .value f x₀]
  | multipoint _ _ x₀ => [.finite .value f x₀]

/-- The checks of a step. -/
def stepChecks (f : Float → Float) : (m : Refinement) → m.State → List Check
  | newton df _ => Newton.checks f df
  | secant .. => TwoPoint.checks f
  | falsePosition .. => TwoPoint.checks f
  | muller .. => Muller.checks f
  | chebyshev df d2f _ => Chebyshev.checks f df d2f
  | multipoint df rule _ => Multipoint.checks f df rule

/-- The checks of a run, in the order in which the run makes them. -/
def checks (m : Refinement) (f : Float → Float) (settings : Settings) : List Check :=
  refineChecks (m.scheme f settings.tolerance) settings (m.start f) (m.startChecks f)
    (m.stepChecks f)

/-- All six methods check their starts as listed. -/
theorem makes_start {m : Refinement} (h : m.CanStart) (f : Float → Float) :
    (m.start f).Makes (m.startChecks f) := by
  cases m with
  | newton df x₀ => exact OnePoint.makes_start f h
  | secant x₀ x₁ => exact TwoPoint.makes_start f h.1 h.2.1 h.2.2
  | falsePosition x₀ x₁ => exact TwoPoint.makes_start f h.1 h.2.1 h.2.2
  | muller x₀ x₁ x₂ => exact Muller.makes_start f h.1 h.2.1 h.2.2
  | chebyshev df d2f x₀ => exact OnePoint.makes_start f h
  | multipoint df rule x₀ => exact OnePoint.makes_start f h

/-- All six methods check their steps as listed. -/
theorem makes_step (m : Refinement) (f : Float → Float) (t : Tolerance) (number : Nat)
    (s : m.State) : ((m.scheme f t).step number s).Makes (m.stepChecks f s) := by
  cases m with
  | newton df x₀ => exact Newton.makes_step f df number s
  | secant x₀ x₁ => exact Secant.makes_step f number s
  | falsePosition x₀ x₁ => exact FalsePosition.makes_step f number s
  | muller x₀ x₁ x₂ => exact Muller.makes_step f number s
  | chebyshev df d2f x₀ => exact Chebyshev.makes_step f df d2f t number s
  | multipoint df rule x₀ => exact Multipoint.makes_step f df rule number s

/-- A run from an accepted start makes the checks of its course. -/
theorem makes_run {m : Refinement} (h : m.CanStart) (f : Float → Float) (settings : Settings) :
    (m.run f settings).Makes (m.checks f settings) := by
  rw [run_eq]
  exact makes_refine (makes_start h f) (m.makes_step f settings.tolerance)

end Refinement

end ScalarRoots
