import ScalarRoots.Event

/-! # Computations that can fail

A `Run` is the outcome of a computation, a value or an error, together with the
transcript of what happened until then.  The transcript is kept when the run
fails: which points had been looked at and what had been logged can be read off
a failed run as well as off a successful one.

A run also carries a counter of evaluations.  The counter and the transcript know
nothing of each other: only `tick` advances the counter, and only a probe is
recorded.  That the two agree is a property of the runs that tick for each of
their probes, and some do not tick at all.

Main statements, for the outcome, the transcript and the counter of each operation:

* `outcome_pure`, `transcript_pure`, `evals_pure`
* `outcome_throw`, `transcript_throw`, `evals_throw`
* `outcome_bind`, `transcript_bind`   and `bind_of_ok`, `bind_of_error`, the same by cases
* `outcome_bind_eq_ok`, `outcome_bind_eq_error`   how a bound run succeeds and fails
* `outcome_map`, `transcript_map`, `evals_map`
* `outcome_lift`, `transcript_lift`, `evals_lift`   what cannot fail can be part of what can
* `outcome_check_eq_ok`   how a run behind a check succeeds
* `outcome_counted`, `transcript_counted`   a run with a counter of its own,
  and `outcome_counted_eq_ok`, `outcome_counted_eq_error`, how it succeeds and fails
-/

namespace ScalarRoots

/-- Mapping values leaves errors alone. -/
theorem Except.map_eq_error {ε α β : Type} {x : Except ε α} {g : α → β} {e : ε} :
    x.map g = .error e ↔ x = .error e := by
  cases x <;> simp [Except.map]

/-- A value or an error, the transcript that led to it, and a counter of evaluations. -/
structure Run (ε α : Type) where
  transcript : Transcript
  /-- How far the run advances the counter. -/
  evals : Nat
  outcome : Except ε α

namespace Run

variable {ε α β : Type}

/-- Two runs are equal if they agree in all three parts. -/
@[ext] theorem ext {x y : Run ε α} (ht : x.transcript = y.transcript)
    (hn : x.evals = y.evals) (ho : x.outcome = y.outcome) : x = y := by
  cases x; cases y; cases ht; cases hn; cases ho; rfl

/-- The evaluations made, in order. -/
def probes (x : Run ε α) : List Probe := Transcript.probes x.transcript

/-- The records logged, in order. -/
def notes (x : Run ε α) : List Note := Transcript.notes x.transcript

instance : Monad (Run ε) where
  pure a := ⟨[], 0, .ok a⟩
  bind x f :=
    match x.outcome with
    | .ok a =>
      let y := f a
      ⟨x.transcript ++ y.transcript, x.evals + y.evals, y.outcome⟩
    | .error e => ⟨x.transcript, x.evals, .error e⟩

instance : MonadExceptOf ε (Run ε) where
  throw e := ⟨[], 0, .error e⟩
  tryCatch x handle :=
    match x.outcome with
    | .ok _ => x
    | .error e =>
      let y := handle e
      ⟨x.transcript ++ y.transcript, x.evals + y.evals, y.outcome⟩

/-- A computation that cannot fail, as a run.  It knows no counter. -/
def ofTraced (x : Traced Event α) : Run ε α := ⟨x.transcript, 0, .ok x.value⟩

instance : MonadLift (Traced Event) (Run ε) := ⟨ofTraced⟩

/-- An outcome that needed no evaluation, as a run. -/
def ofExcept (x : Except ε α) : Run ε α := ⟨[], 0, x⟩

/-- Advances the counter of evaluations by one. -/
def tick : Run ε Unit := ⟨[], 1, .ok ()⟩

/-- A run as a computation that cannot fail and has the outcome as its value. -/
def toTraced (x : Run ε α) : Traced Event (Except ε α) := ⟨x.transcript, x.outcome⟩

/-- Gives a run a counter of its own, which starts from zero, and completes the value with what
    it says in the end. -/
def counted (x : Run ε α) (complete : α → Nat → β) : Run ε β :=
  -- the ticks are used up here, and do not reach the counter outside
  ⟨x.transcript, 0, x.outcome.map (complete · x.evals)⟩

@[simp] theorem outcome_pure (a : α) : (pure a : Run ε α).outcome = .ok a := rfl

@[simp] theorem transcript_pure (a : α) : (pure a : Run ε α).transcript = [] := rfl

/-- Nothing is counted on the way to it. -/
@[simp] theorem evals_pure (a : α) : (pure a : Run ε α).evals = 0 := rfl

@[simp] theorem outcome_throw (e : ε) : (throw e : Run ε α).outcome = .error e := rfl

@[simp] theorem transcript_throw (e : ε) : (throw e : Run ε α).transcript = [] := rfl

@[simp] theorem evals_throw (e : ε) : (throw e : Run ε α).evals = 0 := rfl

@[simp] theorem outcome_tick : (tick : Run ε Unit).outcome = .ok () := rfl

/-- A tick by itself is no evaluation, so nothing is recorded. -/
@[simp] theorem transcript_tick : (tick : Run ε Unit).transcript = [] := rfl

/-- Only a tick does. -/
@[simp] theorem evals_tick : (tick : Run ε Unit).evals = 1 := rfl

/-- After a success, transcript and counter go on with those of what is bound. -/
theorem bind_of_ok {x : Run ε α} {a : α} (h : x.outcome = .ok a) (f : α → Run ε β) :
    x >>= f = ⟨x.transcript ++ (f a).transcript, x.evals + (f a).evals, (f a).outcome⟩ := by
  simp only [bind, h]

/-- After an error nothing else happens. -/
theorem bind_of_error {x : Run ε α} {e : ε} (h : x.outcome = .error e) (f : α → Run ε β) :
    x >>= f = ⟨x.transcript, x.evals, .error e⟩ := by
  simp only [bind, h]

/-- The outcome of a bound run is that of its parts, bound as such. -/
@[simp] theorem outcome_bind (x : Run ε α) (f : α → Run ε β) :
    (x >>= f).outcome = x.outcome.bind fun a => (f a).outcome := by
  cases h : x.outcome with
  | ok a => rw [bind_of_ok h]; rfl
  | error e => rw [bind_of_error h]; rfl

/-- The transcript of a bound run is that of its first part, and of the second if it comes to
    that. -/
@[simp] theorem transcript_bind (x : Run ε α) (f : α → Run ε β) :
    (x >>= f).transcript =
      x.transcript ++
        match x.outcome with
        | .ok a => (f a).transcript
        | .error _ => [] := by
  cases h : x.outcome with
  | ok a => rw [bind_of_ok h]
  | error e => rw [bind_of_error h]; simp

/-- What succeeds has a value. -/
theorem exists_outcome_eq_ok {x : Run ε α} (h : x.outcome.isOk = true) :
    ∃ a, x.outcome = .ok a := by
  cases hx : x.outcome with
  | ok a => exact ⟨a, rfl⟩
  | error e =>
    rw [hx] at h
    cases h

/-- A bound run succeeds when both of its parts do. -/
theorem outcome_bind_eq_ok {x : Run ε α} {f : α → Run ε β} {b : β} :
    (x >>= f).outcome = .ok b ↔ ∃ a, x.outcome = .ok a ∧ (f a).outcome = .ok b := by
  -- what is bound is not even begun after an error
  cases h : x.outcome with
  | ok a => simp [h, Except.bind]
  | error e => simp [h, Except.bind]

/-- A bound run fails when its first part does, or when that succeeds and the second fails. -/
theorem outcome_bind_eq_error {x : Run ε α} {f : α → Run ε β} {e : ε} :
    (x >>= f).outcome = .error e ↔
      x.outcome = .error e ∨ ∃ a, x.outcome = .ok a ∧ (f a).outcome = .error e := by
  cases h : x.outcome with
  | ok a => simp [h, Except.bind]
  | error e => simp [h, Except.bind]

/-- Going on with a value does not change whether there is one. -/
@[simp] theorem outcome_map (f : α → β) (x : Run ε α) : (f <$> x).outcome = x.outcome.map f := by
  show (x >>= fun a => pure (f a)).outcome = _
  rw [outcome_bind]
  cases x.outcome <;> rfl

/-- Nor does it add to the transcript. -/
@[simp] theorem transcript_map (f : α → β) (x : Run ε α) :
    (f <$> x).transcript = x.transcript := by
  show (x >>= fun a => pure (f a)).transcript = _
  rw [transcript_bind]
  cases x.outcome <;> simp

/-- Going on with a value does not advance the counter. -/
@[simp] theorem evals_map (f : α → β) (x : Run ε α) : (f <$> x).evals = x.evals := by
  show (x >>= fun a => pure (f a)).evals = _
  cases h : x.outcome with
  | ok a => rw [bind_of_ok h]; rfl
  | error e => rw [bind_of_error h]

/-- What cannot fail succeeds. -/
@[simp] theorem outcome_lift (x : Traced Event α) :
    (liftM x : Run ε α).outcome = .ok x.value := rfl

/-- What it writes becomes part of the transcript. -/
@[simp] theorem transcript_lift (x : Traced Event α) :
    (liftM x : Run ε α).transcript = x.transcript := rfl

/-- A computation that cannot fail does not advance the counter, even if it probes. -/
@[simp] theorem evals_lift (x : Traced Event α) : (liftM x : Run ε α).evals = 0 := rfl

/-- What cannot fail is passed by. -/
theorem outcome_lift_bind (x : Traced Event α) (f : α → Run ε β) :
    ((liftM x : Run ε α) >>= f).outcome = (f x.value).outcome := rfl

/-- A run behind a check succeeds when the check does and the run itself. -/
theorem outcome_check_eq_ok {b : Bool} {e : ε} {x : Run ε α} {a : α} :
    (if (!b) = true then (throw e : Run ε PUnit) >>= fun _ => x else x).outcome = .ok a ↔
      b = true ∧ x.outcome = .ok a := by
  cases b with
  | true => exact ⟨fun h => ⟨rfl, h⟩, And.right⟩
  | false => exact ⟨nofun, nofun⟩

@[simp] theorem outcome_ofExcept (x : Except ε α) : (ofExcept x).outcome = x := rfl

@[simp] theorem transcript_ofExcept (x : Except ε α) : (ofExcept x).transcript = [] := rfl

/-- An outcome that is given is counted as no evaluation. -/
@[simp] theorem evals_ofExcept (x : Except ε α) : (ofExcept x).evals = 0 := rfl

@[simp] theorem value_toTraced (x : Run ε α) : x.toTraced.value = x.outcome := rfl

@[simp] theorem transcript_toTraced (x : Run ε α) : x.toTraced.transcript = x.transcript := rfl

/-- The counter is read at the end of the run. -/
@[simp] theorem outcome_counted (x : Run ε α) (complete : α → Nat → β) :
    (x.counted complete).outcome = x.outcome.map (complete · x.evals) := rfl

/-- A run with a counter of its own succeeds when it does without. -/
theorem outcome_counted_eq_ok {x : Run ε α} {complete : α → Nat → β} {b : β} :
    (x.counted complete).outcome = .ok b ↔
      ∃ a, x.outcome = .ok a ∧ b = complete a x.evals := by
  rw [outcome_counted]
  cases x.outcome with
  | ok a => simp [Except.map, eq_comm]
  | error e => simp [Except.map]

/-- And it fails when it does without. -/
theorem outcome_counted_eq_error {x : Run ε α} {complete : α → Nat → β} {e : ε} :
    (x.counted complete).outcome = .error e ↔ x.outcome = .error e := by
  rw [outcome_counted]
  cases x.outcome with
  | ok a => simp [Except.map]
  | error e' => simp [Except.map]

/-- A counter of its own leaves the transcript of a run as it is. -/
@[simp] theorem transcript_counted (x : Run ε α) (complete : α → Nat → β) :
    (x.counted complete).transcript = x.transcript := rfl

/-- And it hides the ticks from the counter outside. -/
@[simp] theorem evals_counted (x : Run ε α) (complete : α → Nat → β) :
    (x.counted complete).evals = 0 := rfl

instance : LawfulMonad (Run ε) := LawfulMonad.mk' (Run ε)
  (fun x => by
    cases h : x.outcome with
    | ok a =>
      show x >>= _ = _
      rw [bind_of_ok h]
      exact Run.ext (List.append_nil _) rfl h.symm
    | error e =>
      show x >>= _ = _
      rw [bind_of_error h]
      exact Run.ext rfl rfl h.symm)
  (fun _ _ => Run.ext rfl (Nat.zero_add _) rfl)
  (fun x f g => by
    cases h : x.outcome with
    | ok a =>
      rw [bind_of_ok h, bind_of_ok h]
      cases h' : (f a).outcome with
      | ok b =>
        rw [bind_of_ok rfl, bind_of_ok h']
        simp [Nat.add_assoc]
      | error e =>
        rw [bind_of_error rfl, bind_of_error h']
    | error e =>
      rw [bind_of_error h, bind_of_error h, bind_of_error rfl])

end Run

end ScalarRoots
