import ScalarRoots.Proofs.Batch.InOrder
import ScalarRoots.Refinement.Muller

/-!
# Refinements are silent about restarts

Restarts are the business of a batch.  A single refinement neither announces one nor fails
because there are none left, and the same holds for a single pass over a batch.  What is to
be read about restarts therefore comes from the batch alone.

## Key results

- `Run.IsSilent`: what has nothing to do with restarts
- `Run.IsSilent.bind`: a bound run is silent when its parts are
- `isSilent_refine`: a refinement is silent when its start and its steps are
- `Muller.isSilent_refine`: so are refinements by Muller's method
- `Run.isSilent_inOrder`: and batches of silent calls
-/

namespace ScalarRoots

/-- The number of an announced restart, and how many there may be. -/
def Event.restart? : Event → Option (Nat × Nat)
  | .note (.restart _ number limit) => some (number, limit)
  | _ => none

namespace Run

variable {α β : Type}

/-- The run announces no restart and does not fail because there are none left. -/
structure IsSilent (x : Run RefineError α) : Prop where
  announces_none : ∀ e ∈ x.transcript, e.restart? = none
  not_exhausted : ∀ n, x.outcome ≠ .error (.restartsExhausted n)

/-! ## Parts of a run -/

/-- A value is silent. -/
theorem IsSilent.pure (a : α) : (Pure.pure a : Run RefineError α).IsSilent where
  announces_none := nofun
  not_exhausted := nofun

/-- An error is silent, unless it is the one about restarts. -/
theorem IsSilent.throw {e : RefineError} (h : ∀ n, e ≠ .restartsExhausted n) :
    (MonadExcept.throw e : Run RefineError α).IsSilent where
  announces_none := nofun
  not_exhausted n hn := h n (Except.error.inj hn)

/-- What cannot fail is silent when it announces nothing. -/
theorem IsSilent.lift {x : Traced Event α} (h : ∀ e ∈ x.transcript, e.restart? = none) :
    (liftM x : Run RefineError α).IsSilent where
  announces_none := h
  not_exhausted := nofun

/-- Only one kind of record announces restarts. -/
theorem IsSilent.log {n : Note} (h : (Event.note n).restart? = none) :
    (liftM (ScalarRoots.log n) : Run RefineError Unit).IsSilent := by
  refine .lift fun e he => ?_
  rw [transcript_log, List.mem_singleton] at he
  rw [he, h]

/-- A bound run is silent when its parts are. -/
theorem IsSilent.bind {x : Run RefineError α} {g : α → Run RefineError β} (hx : x.IsSilent)
    (hg : ∀ a, (g a).IsSilent) : (x >>= g).IsSilent := by
  cases h : x.outcome with
  | error e =>
    rw [bind_of_error h]
    refine ⟨hx.announces_none, fun n hn => hx.not_exhausted n ?_⟩
    rw [h, Except.error.inj hn]
  | ok a =>
    rw [bind_of_ok h]
    refine ⟨fun e he => ?_, (hg a).not_exhausted⟩
    -- an event of one part or of the other
    rcases List.mem_append.1 he with hmem | hmem
    · exact hx.announces_none e hmem
    · exact (hg a).announces_none e hmem

/-- A run behind a check is silent when it is silent without. -/
theorem IsSilent.check {b : Bool} {e : RefineError} {x : Run RefineError α}
    (he : ∀ n, e ≠ .restartsExhausted n) (hx : x.IsSilent) :
    (if (!b) = true then (MonadExcept.throw e : Run RefineError PUnit) >>= fun _ => x
      else x).IsSilent := by
  -- a check that fails ends the run with its own error
  cases b with
  | true => exact hx
  | false => exact (IsSilent.throw he).bind fun _ => hx

/-- A counter has nothing to say. -/
theorem IsSilent.counted {x : Run RefineError α} (hx : x.IsSilent) (complete : α → Nat → β) :
    (x.counted complete).IsSilent where
  announces_none := hx.announces_none
  not_exhausted n hn := by
    rw [outcome_counted] at hn
    cases hout : x.outcome with
    | ok a =>
      rw [hout] at hn
      cases hn
    | error e =>
      rw [hout] at hn
      exact hx.not_exhausted n (hout.trans (congrArg Except.error (Except.error.inj hn)))

/-- Calls that are silent are silent when they are made in order. -/
theorem isSilent_inOrder {calls : List (Run RefineError α)} (h : ∀ x ∈ calls, x.IsSilent) :
    (inOrder calls).IsSilent := by
  -- induction on the calls
  induction calls with
  | nil => exact .pure []
  | cons x rest ih =>
    have hrest := ih fun y hy => h y (List.mem_cons_of_mem x hy)
    have hx := h x List.mem_cons_self
    unfold inOrder
    rw [List.mapM_cons]
    exact hx.bind fun a => hrest.bind fun tail => .pure (a :: tail)

end Run

/-! ## Refinements -/

/-- An evaluation is recorded as a probe, and it fails for the value alone. -/
theorem isSilent_evaluatePoint (f : Float → Float) (x : Float) :
    (evaluatePoint f x).IsSilent where
  announces_none e he := by
    rw [transcript_evaluatePoint, List.mem_singleton] at he
    rw [he]
    rfl
  not_exhausted n hn := by
    rw [outcome_evaluatePoint] at hn
    -- the error, if any, tells of the value
    split at hn
    · cases hn
    · cases hn

section

variable {σ : Type} {m : Scheme σ}

/-- An iteration is silent when its steps are. -/
theorem isSilent_iterate (hstep : ∀ number s, (m.step number s).IsSilent) (start : Stencil)
    (left done : Nat) (best : Point Float) (s : σ) :
    (iterate m start left done best s).IsSilent := by
  -- along the iteration only steps and the last record have anything to say
  refine iterate_induction (motive := fun _ _ _ _ x => x.IsSilent) ?met ?exhausted ?step
    left done best s
  case met => exact fun _ _ _ _ _ _ => .pure _
  case exhausted => exact fun _ _ _ _ => (Run.IsSilent.log rfl).bind fun _ => .pure _
  case step =>
    intro left done best s _ ih
    refine (hstep _ s).bind fun advance => ?_
    cases advance with
    | moved next => exact ih _ next
    | accepted next => exact .pure _
    | stuck => exact .pure _

/-- A refinement is silent when its start and its steps are. -/
theorem isSilent_refine {start : Run RefineError σ} (hstart : start.IsSilent)
    (hstep : ∀ number s, (m.step number s).IsSilent) (settings : Settings) :
    (refine m settings start).IsSilent :=
  (hstart.bind fun _ => isSilent_iterate hstep _ _ _ _ _).counted _

end

namespace Muller

/-- The start of a refinement is silent. -/
theorem isSilent_start (f : Float → Float) (x₀ x₁ x₂ : Float) :
    (start f x₀ x₁ x₂).IsSilent := by
  unfold start
  split
  · refine (isSilent_evaluatePoint f x₀).bind fun oldest => ?_
    refine (isSilent_evaluatePoint f x₁).bind fun middle => ?_
    exact (isSilent_evaluatePoint f x₂).bind fun newest => .pure _
  · exact .throw nofun

/-- What is logged about a discriminant is not about restarts. -/
theorem isSilent_discriminantRoot (d : Float) :
    (liftM (discriminantRoot d) : Run RefineError Float).IsSilent := by
  refine .lift ?_
  unfold discriminantRoot
  split
  · exact (Run.IsSilent.log (n := .negativeDiscriminant d discriminantFallback) rfl).announces_none
  · exact nofun

/-- A step is silent, whether there is a parabola or not. -/
theorem isSilent_step (f : Float → Float) (number : Nat) (s : ThreePoint) :
    (step f number s).IsSilent := by
  unfold step
  split
  · exact (Run.IsSilent.log rfl).bind fun _ => .pure _
  · next q hq =>
    refine (isSilent_discriminantRoot q.discriminant).bind fun root => .check nofun ?_
    exact (isSilent_evaluatePoint f _).bind fun next =>
      (Run.IsSilent.log rfl).bind fun _ => .pure _

/-- A refinement by Muller's method has nothing to say about restarts. -/
theorem isSilent_refine (f : Float → Float) (settings : Settings) (x₀ x₁ x₂ : Float) :
    (refine f settings x₀ x₁ x₂).IsSilent :=
  ScalarRoots.isSilent_refine (isSilent_start f x₀ x₁ x₂) (isSilent_step f) settings

end Muller

end ScalarRoots
