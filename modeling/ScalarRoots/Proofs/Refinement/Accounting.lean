import ScalarRoots.Proofs.Refinement.Honesty

/-!
# What a refinement costs

Every method evaluates the same functions in every step, in the same order, and leaves one
trace of the step.  A start evaluates once at each of its locations, and the end of an
iteration costs nothing, however it comes about.  So the number of iterations that a report
states determines what was evaluated on the way to it and what was traced.

The counter of evaluations is advanced apart from the record of them.  That it says how many
there are on record is carried through every part of a run, together with what they are.

## Key results

- `Run.IsAccounted`: what a run counts, evaluates and traces if it succeeds
- `Run.IsAccounted.bind`: a bound run counts, evaluates and traces what its parts do
- `Scheme.IsAccounted`: all steps that lead anywhere cost the same
- `exists_accounted_of_iterate`: what an iteration costs
- `Scheme.IsAccounted.outcome_refine`: what a refinement reports
- `Refinement.isAccounted_start` / `Refinement.isAccounted_scheme`: the six methods
- `Refinement.accounts_of_run`: what a refinement costs
-/

namespace ScalarRoots

/-- The trace of the step with the given number: the text says which one it is. -/
def Note.IsIteration (a : Algorithm) (number : Nat) (n : Note) : Prop :=
  n.level = .trace ∧ ∃ rest, n.text = s!"{a.name}: iter={number}, " ++ rest

namespace Run

variable {ε α β : Type}

/-- The quantities that a run evaluates, in order. -/
def calls (x : Run ε α) : List Quantity := x.probes.map (·.quantity)

/-- The traces of a run, in order. -/
def traces (x : Run ε α) : List Note := x.notes.filter (·.level = .trace)

/-- If it succeeds, the run advances the counter once for each of these quantities and evaluates
    them, and it traces the steps with these numbers and nothing else, all in order. -/
def IsAccounted (a : Algorithm) (quantities : List Quantity) (numbers : List Nat)
    (x : Run ε α) : Prop :=
  x.outcome.isOk = true →
    x.evals = quantities.length ∧ x.calls = quantities ∧
      List.Forall₂ (Note.IsIteration a) numbers x.traces

/-! ## Parts of a run -/

/-- The counter goes on from where the first part has left it. -/
theorem evals_bind_of_ok {x : Run ε α} {v : α} (h : x.outcome = .ok v) (g : α → Run ε β) :
    (x >>= g).evals = x.evals + (g v).evals := by
  rw [bind_of_ok h]

/-- So do the evaluations. -/
theorem calls_bind_of_ok {x : Run ε α} {v : α} (h : x.outcome = .ok v) (g : α → Run ε β) :
    (x >>= g).calls = x.calls ++ (g v).calls := by
  unfold calls
  rw [probes_bind_of_ok h, List.map_append]

/-- And so do the traces. -/
theorem traces_bind_of_ok {x : Run ε α} {v : α} (h : x.outcome = .ok v) (g : α → Run ε β) :
    (x >>= g).traces = x.traces ++ (g v).traces := by
  unfold traces
  rw [notes_bind_of_ok h, List.filter_append]

variable {a : Algorithm}

/-- A value costs nothing. -/
theorem IsAccounted.pure (v : α) : (Pure.pure v : Run ε α).IsAccounted a [] [] :=
  fun _ => ⟨rfl, rfl, .nil⟩

/-- A run that fails owes no account. -/
theorem IsAccounted.throw (e : ε) (quantities : List Quantity) (numbers : List Nat) :
    (MonadExcept.throw e : Run ε α).IsAccounted a quantities numbers :=
  nofun

/-- A bound run counts, evaluates and traces what its parts do, one after the other. -/
theorem IsAccounted.bind {x : Run ε α} {g : α → Run ε β} {quantities quantities' : List Quantity}
    {numbers numbers' : List Nat} (hx : x.IsAccounted a quantities numbers)
    (hg : ∀ v, x.outcome = .ok v → (g v).IsAccounted a quantities' numbers') :
    (x >>= g).IsAccounted a (quantities ++ quantities') (numbers ++ numbers') := by
  intro hok
  -- both parts succeed, so both are accounted for
  obtain ⟨w, hw⟩ := exists_outcome_eq_ok hok
  obtain ⟨v, hv, hrest⟩ := outcome_bind_eq_ok.1 hw
  obtain ⟨hevals, hcalls, htraces⟩ := hx (by rw [hv]; rfl)
  obtain ⟨hevals', hcalls', htraces'⟩ := hg v hv (by rw [hrest]; rfl)
  rw [evals_bind_of_ok hv, calls_bind_of_ok hv, traces_bind_of_ok hv, hcalls, hcalls', hevals,
    hevals', List.length_append]
  exact ⟨rfl, rfl, List.rel_append htraces htraces'⟩

/-- A check costs nothing, whether it guards a value or a run. -/
theorem IsAccounted.guarded (b : Bool) (v : α) (e : ε) :
    (if b = true then Pure.pure v else MonadExcept.throw e : Run ε α).IsAccounted a [] [] := by
  split
  · exact .pure v
  · exact .throw e [] []

/-- A check before a run adds nothing to what the run costs. -/
theorem IsAccounted.check {b : Bool} {e : ε} {x : Run ε α} {quantities : List Quantity}
    {numbers : List Nat} (hx : x.IsAccounted a quantities numbers) :
    (if (!b) = true then (MonadExcept.throw e : Run ε PUnit) >>= fun _ => x
      else x).IsAccounted a quantities numbers := by
  cases b with
  | true => exact hx
  | false => exact nofun

/-- An evaluation is counted once and made once. -/
theorem IsAccounted.evaluate (q : Quantity) (g : Float → Float) (x : Float) :
    (ScalarRoots.evaluate q g x).IsAccounted a [q] [] := by
  -- the counter is advanced by one tick, and there is one probe on record
  intro _
  unfold calls traces probes notes
  rw [transcript_evaluate]
  exact ⟨evals_evaluate q g x, rfl, .nil⟩

/-- To evaluate the target function at a point costs one evaluation. -/
theorem IsAccounted.evaluatePoint (f : Float → Float) (x : Float) :
    (ScalarRoots.evaluatePoint f x).IsAccounted a [.value] [] :=
  (IsAccounted.evaluate .value f x).bind fun _ _ => .pure _

/-- Of the records, only traces are counted. -/
theorem IsAccounted.log {n : Note} (h : n.level ≠ .trace) :
    (liftM (ScalarRoots.log n) : Run ε Unit).IsAccounted a [] [] := by
  intro _
  have hnone : (liftM (ScalarRoots.log n) : Run ε Unit).traces = [] := by
    show [n].filter (·.level = .trace) = []
    rw [List.filter_singleton, decide_eq_false h]
    rfl
  exact ⟨rfl, rfl, hnone ▸ .nil⟩

/-- A step ends with its trace. -/
theorem IsAccounted.traced {n : Note} {number : Nat} (h : n.IsIteration a number) (v : α) :
    (do
      ScalarRoots.log n
      return v : Run ε α).IsAccounted a [] [number] := by
  have hlog : (liftM (ScalarRoots.log n) : Run ε Unit).IsAccounted a [] [number] := by
    intro _
    have hone : (liftM (ScalarRoots.log n) : Run ε Unit).traces = [n] := by
      show [n].filter (·.level = .trace) = [n]
      rw [List.filter_singleton, decide_eq_true h.1]
      rfl
    exact ⟨rfl, rfl, hone ▸ .cons h .nil⟩
  exact hlog.bind fun _ _ => .pure v

end Run

/-! ## Iterations -/

variable {σ : Type}

/-- Every step that leads anywhere evaluates the same quantities and leaves its trace; a step
    that is stuck does neither. -/
structure Scheme.IsAccounted (m : Scheme σ) (quantities : List Quantity) : Prop where
  step : ∀ number s, (m.step number s).outcome ≠ .ok .stuck →
    (m.step number s).IsAccounted m.algorithm quantities [number]
  stuck : ∀ number s, (m.step number s).outcome = .ok .stuck →
    (m.step number s).IsAccounted m.algorithm [] []

/-- An iteration evaluates the same quantities again and again, as often as it states, and
    traces its steps by their numbers. -/
theorem exists_accounted_of_iterate {m : Scheme σ} {quantities : List Quantity}
    (hm : m.IsAccounted quantities) {start : Stencil} {left done : Nat} {best : Point Float}
    {s : σ} {fin : Finish} (h : (iterate m start left done best s).outcome = .ok fin) :
    ∃ k, fin.iterations = done + k ∧
      (iterate m start left done best s).IsAccounted m.algorithm
        (List.replicate k quantities).flatten (List.range' (done + 1) k) := by
  -- A step that moves on adds itself to those that follow.
  revert h
  refine iterate_induction (motive := fun _ done _ _ x =>
    x.outcome = .ok fin → ∃ k, fin.iterations = done + k ∧
      x.IsAccounted m.algorithm (List.replicate k quantities).flatten (List.range' (done + 1) k))
    ?met ?exhausted ?step left done best s
  case met =>
    intro left done best s c _ h
    cases h
    exact ⟨0, rfl, .pure _⟩
  case exhausted =>
    intro done best s _ h
    cases h
    exact ⟨0, rfl, (Run.IsAccounted.log Level.noConfusion).bind fun _ _ => .pure _⟩
  case step =>
    intro left done best s _ ih h
    obtain ⟨advance, hstep, hnext⟩ := Run.outcome_bind_eq_ok.1 h
    -- what comes after the step depends on what the step was
    have hafter {a : Algorithm} {quantities : List Quantity} {numbers : List Nat}
        {g : Advance σ → Run RefineError Finish}
        (hg : (g advance).IsAccounted a quantities numbers) (v : Advance σ)
        (hv : (m.step (done + 1) s).outcome = .ok v) :
        (g v).IsAccounted a quantities numbers := by
      cases hstep.symm.trans hv
      exact hg
    cases advance with
    -- the step adds itself to the iteration that follows
    | moved next =>
      obtain ⟨k, hk, hrest⟩ := ih _ next hnext
      refine ⟨k + 1, by omega, ?_⟩
      rw [List.replicate_succ, List.flatten_cons, List.range'_succ]
      exact (hm.step _ s (by rw [hstep]; nofun)).bind (hafter hrest)
    -- a step that is accepted is the last one, and it counts
    | accepted next =>
      cases hnext
      refine ⟨1, rfl, ?_⟩
      rw [List.replicate_one, List.flatten_singleton, ← List.append_nil quantities]
      exact (hm.step _ s (by rw [hstep]; nofun)).bind (hafter (.pure _))
    -- a stuck step does not count as an iteration
    | stuck =>
      cases hnext
      exact ⟨0, rfl, (hm.stuck _ s hstep).bind (hafter (.pure _))⟩

/-- A refinement evaluates what its start does and then, for each of its iterations, what a step
    does.  It reports what its counter says, and that is how many evaluations there are. -/
theorem accounted_of_refine {m : Scheme σ} {opening quantities : List Quantity}
    (hm : m.IsAccounted quantities) {start : Run RefineError σ}
    (hstart : start.IsAccounted m.algorithm opening []) {settings : Settings} {r : Report}
    (h : (refine m settings start).outcome = .ok r) :
    r.evaluations = (refine m settings start).probes.length ∧
      (refine m settings start).calls =
        opening ++ (List.replicate r.iterations quantities).flatten ∧
      List.Forall₂ (Note.IsIteration m.algorithm) (List.range' 1 r.iterations)
        (refine m settings start).traces := by
  obtain ⟨fin, hrun, rfl⟩ := Run.outcome_counted_eq_ok.1 h
  obtain ⟨s₀, hs₀, hiter⟩ := Run.outcome_bind_eq_ok.1 hrun
  -- the iteration starts with no step done, so it states what it has cost
  obtain ⟨k, hk, haccount⟩ := exists_accounted_of_iterate hm hiter
  obtain rfl : fin.iterations = k := hk.trans (Nat.zero_add k)
  -- the counter is that of the run inside; the transcript is the same outside
  obtain ⟨hevals, hcalls, htraces⟩ := hstart.bind (g := fun s => iterate m (m.stencil s)
    (m.algorithm.budget (settings.iterations.map (·.toNat))) 0 (m.newest s) s) (by
      intro s hs
      cases hs₀.symm.trans hs
      exact haccount) (congrArg Except.isOk hrun)
  refine ⟨?_, hcalls, htraces⟩
  rw [← hcalls, Run.calls, List.length_map] at hevals
  exact hevals

/-- How often is evaluated in `k` iterations. -/
theorem length_append_flatten_replicate (opening quantities : List Quantity) (k : Nat) :
    (opening ++ (List.replicate k quantities).flatten).length =
      opening.length + k * quantities.length := by
  rw [List.length_append, List.length_flatten, List.map_replicate, List.sum_replicate,
    smul_eq_mul]

/-- A refinement reports where its iteration ends, and what it costs to get there. -/
theorem Scheme.IsAccounted.outcome_refine {m : Scheme σ} {opening quantities : List Quantity}
    (hm : m.IsAccounted quantities) {start : Run RefineError σ}
    (hstart : start.IsAccounted m.algorithm opening []) (settings : Settings) {s₀ : σ}
    (hs₀ : start.outcome = .ok s₀) :
    (refine m settings start).outcome =
      (iterate m (m.stencil s₀) (m.algorithm.budget (settings.iterations.map (·.toNat))) 0
        (m.newest s₀) s₀).outcome.map fun fin =>
          fin.report m.algorithm (opening.length + fin.iterations * quantities.length) := by
  -- the report is that of where the iteration ends, with some count
  obtain ⟨n, hrun⟩ : ∃ n, (refine m settings start).outcome =
      (iterate m (m.stencil s₀) (m.algorithm.budget (settings.iterations.map (·.toNat))) 0
        (m.newest s₀) s₀).outcome.map fun fin => fin.report m.algorithm n := by
    unfold refine
    rw [Run.outcome_counted, Run.outcome_bind, hs₀]
    exact ⟨_, rfl⟩
  rw [hrun]
  cases h : (iterate m (m.stencil s₀) (m.algorithm.budget (settings.iterations.map (·.toNat))) 0
    (m.newest s₀) s₀).outcome with
  | error e => rfl
  | ok fin =>
    rw [h] at hrun
    -- the counter says how many probes there are, and the calls are as many
    obtain ⟨hcount, hcalls, -⟩ := accounted_of_refine hm hstart hrun
    have hlength := congrArg List.length hcalls
    rw [Run.calls, List.length_map, length_append_flatten_replicate, ← hcount] at hlength
    exact congrArg (fun n => Except.ok (fin.report m.algorithm n)) hlength

/-! ## The six methods -/

namespace Refinement

/-- What the method evaluates at its start. -/
def openingCalls : Refinement → List Quantity
  | newton .. => [.value]
  | secant .. => [.value, .value]
  | falsePosition .. => [.value, .value]
  | muller .. => [.value, .value, .value]
  | chebyshev .. => [.value]
  | multipoint .. => [.value]

/-- What the method evaluates in a step. -/
def stepCalls : Refinement → List Quantity
  | newton .. => [.slope, .value]
  | secant .. => [.value]
  | falsePosition .. => [.value]
  | muller .. => [.value]
  | chebyshev .. => [.slope, .curvature, .value]
  | multipoint _ .midpointDerivative _ => [.slope, .slope, .value]
  | multipoint _ .predictorCorrector _ => [.slope, .value, .value]

/-- How often the method evaluates in `k` iterations. -/
def evaluationsAfter : Refinement → (k : Nat) → Nat
  | newton .., k => 1 + 2 * k
  | secant .., k => 2 + k
  | falsePosition .., k => 2 + k
  | muller .., k => 3 + k
  | chebyshev .., k => 1 + 3 * k
  | multipoint .., k => 1 + 3 * k

/-- The count of the evaluations is the length of their list. -/
theorem length_calls (m : Refinement) (k : Nat) :
    (m.openingCalls ++ (List.replicate k m.stepCalls).flatten).length = m.evaluationsAfter k := by
  rw [length_append_flatten_replicate]
  cases m with
  | multipoint df rule x₀ =>
    cases rule <;> simp [openingCalls, stepCalls, evaluationsAfter] <;> omega
  | _ => simp [openingCalls, stepCalls, evaluationsAfter] <;> omega

end Refinement

/-! ### Starts -/

/-- One start takes one evaluation. -/
theorem OnePoint.isAccounted_start {a : Algorithm} (f : Float → Float) (x₀ : Float) :
    (start f x₀).IsAccounted a [.value] [] := by
  unfold start
  split
  · exact (Run.IsAccounted.evaluatePoint f x₀).bind fun _ _ => .pure _
  · exact .throw _ _ _

/-- Two starts take two. -/
theorem TwoPoint.isAccounted_start {a : Algorithm} (f : Float → Float) (x₀ x₁ : Float) :
    (start f x₀ x₁).IsAccounted a [.value, .value] [] := by
  unfold start
  split
  · refine (Run.IsAccounted.evaluatePoint f x₀).bind fun _ _ => ?_
    exact (Run.IsAccounted.evaluatePoint f x₁).bind fun _ _ => .pure _
  · exact .throw _ _ _

/-- Three starts take three. -/
theorem Muller.isAccounted_start {a : Algorithm} (f : Float → Float) (x₀ x₁ x₂ : Float) :
    (start f x₀ x₁ x₂).IsAccounted a [.value, .value, .value] [] := by
  unfold start
  split
  · refine (Run.IsAccounted.evaluatePoint f x₀).bind fun _ _ => ?_
    refine (Run.IsAccounted.evaluatePoint f x₁).bind fun _ _ => ?_
    exact (Run.IsAccounted.evaluatePoint f x₂).bind fun _ _ => .pure _
  · exact .throw _ _ _

/-- The starts of all six methods are accounted for. -/
theorem Refinement.isAccounted_start (m : Refinement) (f : Float → Float) :
    (m.start f).IsAccounted m.algorithm m.openingCalls [] := by
  cases m with
  | newton df x₀ => exact OnePoint.isAccounted_start f x₀
  | chebyshev df d2f x₀ => exact OnePoint.isAccounted_start f x₀
  | multipoint df rule x₀ => exact OnePoint.isAccounted_start f x₀
  | secant x₀ x₁ => exact TwoPoint.isAccounted_start f x₀ x₁
  | falsePosition x₀ x₁ => exact TwoPoint.isAccounted_start f x₀ x₁
  | muller x₀ x₁ x₂ => exact Muller.isAccounted_start f x₀ x₁ x₂

/-! ### Steps -/

/-- A Newton step takes one slope.  The value is known already. -/
theorem Run.IsAccounted.newtonStep {a : Algorithm} (df : Float → Float) (p : Point Float) :
    (ScalarRoots.newtonStep df p).IsAccounted a [.slope] [] :=
  (Run.IsAccounted.evaluate .slope df p.x).bind fun _ _ => .guarded _ _ _

/-- The trace that most methods leave of a step is one of the step with its number. -/
theorem Note.isIteration_iterate (a : Algorithm) (number : Nat) (p : Point Float) :
    (Note.iterate a number p).IsIteration a number :=
  ⟨rfl, Note.pointText p, rfl⟩

/-- So is that of a step of Chebyshev's method that is accepted for being small. -/
theorem Note.isIteration_smallStep (number : Nat) (p : Point Float) :
    (Note.smallStep number p).IsIteration .chebyshev number :=
  ⟨rfl, Note.pointText p ++ ", step below epsilon", String.append_assoc ..⟩

/-- The trace of the multipoint iteration names its rule after the number. -/
theorem Note.isIteration_multipointIterate (rule : MultipointRule) (number : Nat)
    (p : Point Float) :
    (Note.multipointIterate rule number p).IsIteration .multipoint number := by
  refine ⟨rfl, s!"mode={rule.name}, {Note.pointText p}", ?_⟩
  -- the comma still belongs to the number
  have hsplit : ", mode=" = ", " ++ "mode=" := rfl
  simp only [Note.text, hsplit, toString, String.append_assoc]

/-- The trace of false position shows the bracket after the number. -/
theorem Note.isIteration_bracketIterate (number : Nat) (x : Float) (p : Point Float) :
    (Note.bracketIterate number x p).IsIteration .falsePosition number := by
  refine ⟨rfl, s!"bracket=({Decimal.plain.text x}, {Decimal.plain.text p.x}), f(x)={Decimal.plain.text p.y}", ?_⟩
  have hsplit : ", bracket=(" = ", " ++ "bracket=(" := rfl
  simp only [Note.text, hsplit, toString, String.append_assoc]

/-- A step of Newton's method takes a slope and a value. -/
theorem Newton.isAccounted_step (f df : Float → Float) (number : Nat) (s : OnePoint) :
    (step f df number s).IsAccounted .newton [.slope, .value] [number] := by
  refine (Run.IsAccounted.newtonStep df s.current).bind fun _ _ => ?_
  refine (Run.IsAccounted.evaluatePoint f _).bind fun _ _ => ?_
  exact .traced (Note.isIteration_iterate _ _ _) _

/-- A step of Chebyshev's method takes a curvature besides. -/
theorem Chebyshev.isAccounted_step (f df d2f : Float → Float) (t : Tolerance) (number : Nat)
    (s : OnePoint) :
    (step f df d2f t number s).IsAccounted .chebyshev [.slope, .curvature, .value] [number] := by
  refine (Run.IsAccounted.newtonStep df s.current).bind fun _ _ => ?_
  refine (Run.IsAccounted.evaluate .curvature d2f _).bind fun _ _ => .check ?_
  refine (Run.IsAccounted.evaluatePoint f _).bind fun _ _ => ?_
  -- one trace either way
  split
  · exact .traced (Note.isIteration_smallStep _ _) _
  · exact .traced (Note.isIteration_iterate _ _ _) _

/-- A step of the multipoint iteration takes three evaluations, by either rule. -/
theorem Multipoint.isAccounted_step (f df : Float → Float) (rule : MultipointRule) (x₀ : Float)
    (number : Nat) (s : OnePoint) :
    (step f df rule number s).IsAccounted .multipoint
      (Refinement.multipoint df rule x₀).stepCalls [number] := by
  have hmove (x : Float) :
      (do
        let next ← evaluatePoint f x
        log (.multipointIterate rule number next)
        return .moved (s.moveTo next) : Run RefineError (Advance OnePoint)).IsAccounted
          .multipoint [.value] [number] :=
    (Run.IsAccounted.evaluatePoint f x).bind fun _ _ =>
      .traced (Note.isIteration_multipointIterate _ _ _) _
  have hratio (y x slope : Float) : (checkedRatio y x slope).IsAccounted .multipoint [] [] :=
    .guarded _ _ _
  -- the rules differ in what they evaluate on the way to the next point
  cases rule with
  | midpointDerivative =>
    have hnext : (nextLocation f df .midpointDerivative s.current).IsAccounted .multipoint
        [.slope, .slope] [] := by
      refine (Run.IsAccounted.evaluate .slope df _).bind fun _ _ => ?_
      refine (hratio _ _ _).bind fun _ _ => ?_
      refine (Run.IsAccounted.evaluate .slope df _).bind fun _ _ => ?_
      exact (hratio _ _ _).bind fun _ _ => .pure _
    exact hnext.bind fun x _ => hmove x
  | predictorCorrector =>
    have hnext : (nextLocation f df .predictorCorrector s.current).IsAccounted .multipoint
        [.slope, .value] [] := by
      refine (Run.IsAccounted.evaluate .slope df _).bind fun _ _ => ?_
      refine (hratio _ _ _).bind fun _ _ => ?_
      refine (Run.IsAccounted.evaluatePoint f _).bind fun _ _ => ?_
      exact (hratio _ _ _).bind fun _ _ => .pure _
    exact hnext.bind fun x _ => hmove x

/-- An intercept takes one value, where there is one. -/
theorem TwoPoint.isAccounted_interceptPoint {a : Algorithm} (f : Float → Float) (s : TwoPoint) :
    (s.interceptPoint f).IsAccounted a [.value] [] := by
  unfold interceptPoint
  split
  · exact .evaluatePoint f _
  · exact .throw _ _ _

/-- A step of the secant method takes one value. -/
theorem Secant.isAccounted_step (f : Float → Float) (number : Nat) (s : TwoPoint) :
    (step f number s).IsAccounted .secant [.value] [number] := by
  refine (TwoPoint.isAccounted_interceptPoint f s).bind fun _ _ => ?_
  exact .traced (Note.isIteration_iterate _ _ _) _

/-- So does a step of false position. -/
theorem FalsePosition.isAccounted_step (f : Float → Float) (number : Nat) (s : TwoPoint) :
    (step f number s).IsAccounted .falsePosition [.value] [number] := by
  refine (TwoPoint.isAccounted_interceptPoint f s).bind fun _ _ => ?_
  exact .traced (Note.isIteration_bracketIterate _ _ _) _

namespace Muller

/-- What is said of a parabola without zeros is no trace. -/
theorem isAccounted_discriminantRoot (d : Float) :
    (liftM (discriminantRoot d) : Run RefineError Float).IsAccounted .muller [] [] := by
  unfold discriminantRoot
  split
  · exact (Run.IsAccounted.log (n := .negativeDiscriminant d discriminantFallback)
      Level.noConfusion).bind fun _ _ => .pure discriminantFallback
  · exact .pure _

/-- Through points that determine a parabola there is a step. -/
theorem isAccounted_step {f : Float → Float} {number : Nat} {s : ThreePoint}
    (h : (step f number s).outcome ≠ .ok .stuck) :
    (step f number s).IsAccounted .muller [.value] [number] := by
  cases hq : parabola? s with
  | none =>
    -- without a parabola the step would be stuck
    exact absurd (step_eq_ok.2 (.inl ⟨hq, rfl⟩)) h
  | some q =>
    unfold step
    rw [hq]
    refine (isAccounted_discriminantRoot q.discriminant).bind fun _ _ => .check ?_
    refine (Run.IsAccounted.evaluatePoint f _).bind fun _ _ => ?_
    exact .traced (Note.isIteration_iterate _ _ _) _

/-- Points that determine no parabola cost nothing, and the warning about them is no trace. -/
theorem isAccounted_stuck {f : Float → Float} {number : Nat} {s : ThreePoint}
    (h : (step f number s).outcome = .ok .stuck) :
    (step f number s).IsAccounted .muller [] [] := by
  rcases step_eq_ok.1 h with ⟨hq, -⟩ | ⟨_, _, _, -, -, -, -, hmoved⟩
  · unfold step
    rw [hq]
    exact (Run.IsAccounted.log Level.noConfusion).bind fun _ _ => .pure _
  · cases hmoved

end Muller

namespace Refinement

/-- The steps of all six methods are accounted for. -/
theorem isAccounted_scheme (m : Refinement) (f : Float → Float) (t : Tolerance) :
    (m.scheme f t).IsAccounted m.stepCalls where
  step number s h := by
    cases m with
    | newton df x₀ => exact Newton.isAccounted_step f df number s
    | chebyshev df d2f x₀ => exact Chebyshev.isAccounted_step f df d2f t number s
    | multipoint df rule x₀ => exact Multipoint.isAccounted_step f df rule x₀ number s
    | secant x₀ x₁ => exact Secant.isAccounted_step f number s
    | falsePosition x₀ x₁ => exact FalsePosition.isAccounted_step f number s
    | muller x₀ x₁ x₂ => exact Muller.isAccounted_step h
  stuck number s h := by
    by_cases hmuller : m.algorithm = .muller
    · cases m with
      | muller x₀ x₁ x₂ => exact Muller.isAccounted_stuck h
      | _ => cases hmuller
    · exact absurd h (step_ne_stuck hmuller number s)

/-- The account of a refinement, for all six methods and however it ends.  The evaluations that
    are reported are those that were made, and after `k` iterations they are `1 + 2 k` for
    Newton's method, `2 + k` for the secant method and for false position, `3 + k` for Muller's
    method, and `1 + 3 k` for Chebyshev's method and for the multipoint iteration by either
    rule: first the function at every start, then the same quantities in every iteration.  The
    traces are those of the iterations, one for each, numbered from one on. -/
theorem accounts_of_run (m : Refinement) (f : Float → Float) (settings : Settings) (r : Report)
    (h : (m.run f settings).outcome = .ok r) :
    (r.evaluations = (m.run f settings).probes.length ∧
        r.evaluations = m.evaluationsAfter r.iterations) ∧
      (m.run f settings).calls =
        m.openingCalls ++ (List.replicate r.iterations m.stepCalls).flatten ∧
      List.Forall₂ (Note.IsIteration m.algorithm) (List.range' 1 r.iterations)
        (m.run f settings).traces := by
  rw [run_eq] at h ⊢
  have hstart := m.isAccounted_start f
  -- the start leaves its traces under the name of the method
  rw [← m.algorithm_scheme f settings.tolerance] at hstart ⊢
  obtain ⟨hcount, hcalls, htraces⟩ :=
    accounted_of_refine (m.isAccounted_scheme f settings.tolerance) hstart h
  -- the count in terms of the iterations comes from the list of the evaluations
  have hlength := congrArg List.length hcalls
  unfold Run.calls at hlength
  rw [List.length_map, length_calls, ← hcount] at hlength
  exact ⟨⟨hcount, hlength⟩, hcalls, htraces⟩

/-- Newton's method on the root of two needs three iterations and so seven evaluations. -/
theorem accounts_of_run_root_two :
    ∃ r, ((newton (fun x => 2 * x) 1).run (fun x => x * x - 2) {}).outcome = .ok r ∧
      r.iterations = 3 ∧ r.evaluations = 7 := by
  obtain ⟨r, hr⟩ := Run.exists_outcome_eq_ok
    (show ((newton (fun x => 2 * x) 1).run (fun x => x * x - 2) {}).outcome.isOk = true by
      decide +kernel)
  have hiterations : ((newton (fun x => 2 * x) 1).run (fun x => x * x - 2) {}).outcome.toOption.map
      (·.iterations) = some 3 := by decide +kernel
  rw [hr] at hiterations
  obtain ⟨⟨-, hevaluations⟩, -⟩ :=
    accounts_of_run (newton (fun x => 2 * x) 1) (fun x => x * x - 2) {} r hr
  have hthree : r.iterations = 3 := Option.some.inj hiterations
  rw [hthree] at hevaluations
  exact ⟨r, hr, hthree, hevaluations⟩

end Refinement

end ScalarRoots
