import ScalarRoots.Bracketing
import ScalarRoots.Proofs.Binary64.Negation
import ScalarRoots.Refinement.Error

/-!
# Mirror images of runs

The graph of `-f` is the mirror image of the graph of `f` in the axis: the locations are the
same and the values have the other sign.  Here this is said of everything that a computation
looks at, logs and returns.  The mirror image of a run has the same course, and mirroring goes
through the parts that a run is bound together from.

## Key results

- `Point.mirrored` and its namesakes: the same with values of the other sign
- `Run.mirrored_bind`: parts that mirror each other make runs that do
- `evaluate_mirrored` / `evaluatePoint_mirrored`: evaluations of `-f`
- `Verdict.ofValues_neg`: a sign change is one on the other side of the axis, too
-/

namespace ScalarRoots

/-! ## Data -/

/-- The same location and the value of the other sign. -/
def Point.mirrored (p : Point Float) : Point Float := ⟨p.x, -p.y⟩

namespace Point

/-- A point and its mirror image are equally good. -/
@[simp] theorem residual_mirrored (p : Point Float) : p.mirrored.residual = p.residual :=
  Binary64.abs_neg p.y

/-- So the better of two points is the same on either side. -/
theorem better_mirrored (p q : Point Float) :
    p.mirrored.better q.mirrored = (p.better q).mirrored := by
  unfold better
  rw [residual_mirrored, residual_mirrored]
  split <;> rfl

end Point

/-- What came out has the other sign. -/
def Probe.mirrored (p : Probe) : Probe := { p with result := -p.result }

/-- A record of the same with points of the other sign. -/
def Note.mirrored : Note → Note
  | iterate algorithm number reached => iterate algorithm number reached.mirrored
  | smallStep number reached => smallStep number reached.mirrored
  | multipointIterate rule number reached => multipointIterate rule number reached.mirrored
  | bracketIterate number a b => bracketIterate number a b.mirrored
  | n => n

/-- The same event on the other side of the axis. -/
def Event.mirrored : Event → Event
  | probe p => probe p.mirrored
  | note n => note n.mirrored

/-- The same error at the same place, with a value or slope of the other sign. -/
def RefineError.mirrored : RefineError → RefineError
  | notFinite quantity x y => notFinite quantity x (-y)
  | newtonStep x slope => newtonStep x (-slope)
  | vanishingSlope x slope => vanishingSlope x (-slope)
  | e => e

/-- The same report with the value at the root of the other sign. -/
def Report.mirrored (r : Report) : Report := { r with root := r.root.mirrored }

/-- The same location and the value of the other sign. -/
def Approximation.mirrored (a : Approximation) : Approximation := ⟨a.location, -a.value⟩

/-! ## Computations that cannot fail -/

namespace Traced

variable {α β α' β' : Type}

/-- The mirror image of a computation, when that of its value is known. -/
def mirrored (g : α → α') (x : Traced Event α) : Traced Event α' :=
  ⟨x.transcript.map Event.mirrored, g x.value⟩

/-- Parts that mirror each other make computations that do. -/
theorem mirrored_bind {x : Traced Event α} {x' : Traced Event α'} {k : α → Traced Event β}
    {k' : α' → Traced Event β'} {g : α → α'} {h : β → β'} (hx : x' = x.mirrored g)
    (hk : ∀ a, k' (g a) = (k a).mirrored h) : x' >>= k' = (x >>= k).mirrored h := by
  subst hx
  show Traced.mk _ _ = Traced.mk _ _
  simp only [mirrored, hk, transcript_bind, value_bind, List.map_append]

/-- A choice that is made alike on both sides mirrors itself. -/
theorem mirrored_ite {c : Prop} [Decidable c] {x y : Traced Event α} {x' y' : Traced Event α'}
    {g : α → α'} (hx : x' = x.mirrored g) (hy : y' = y.mirrored g) :
    (if c then x' else y') = (if c then x else y).mirrored g := by
  split
  · exact hx
  · exact hy

end Traced

/-- Evaluating `-f` is evaluating `f` on the other side of the axis. -/
theorem probe_mirrored (q : Quantity) (g : Float → Float) (x : Float) :
    probe q (-g) x = (probe q g x).mirrored (- ·) := rfl

/-- What is logged on the other side is the mirrored record. -/
theorem log_mirrored (n : Note) : log n.mirrored = (log n).mirrored id := rfl

/-! ## Runs -/

namespace Run

variable {ε ε' α β α' β' : Type}

/-- The mirror image of a run, when those of its errors and its values are known.  It counts as
    many evaluations. -/
def mirrored (e : ε → ε') (g : α → α') (x : Run ε α) : Run ε' α' :=
  ⟨x.transcript.map Event.mirrored, x.evals, (x.outcome.mapError e).map g⟩

variable {e : ε → ε'} {g : α → α'} {h : β → β'}

/-- Parts that mirror each other make runs that do. -/
theorem mirrored_bind {x : Run ε α} {x' : Run ε' α'} {k : α → Run ε β} {k' : α' → Run ε' β'}
    (hx : x' = x.mirrored e g) (hk : ∀ a, k' (g a) = (k a).mirrored e h) :
    x' >>= k' = (x >>= k).mirrored e h := by
  subst hx
  -- an error ends both runs at the same place
  cases hout : x.outcome with
  | error err =>
    have hout' : (x.mirrored e g).outcome = .error (e err) := by rw [mirrored, hout]; rfl
    rw [bind_of_error hout, bind_of_error hout']
    rfl
  | ok a =>
    have hout' : (x.mirrored e g).outcome = .ok (g a) := by rw [mirrored, hout]; rfl
    rw [bind_of_ok hout, bind_of_ok hout', hk]
    simp only [mirrored, List.map_append]

/-- A check that decides the same on both sides mirrors itself. -/
theorem mirrored_ite {c : Prop} [Decidable c] {x y : Run ε α} {x' y' : Run ε' α'}
    (hx : x' = x.mirrored e g) (hy : y' = y.mirrored e g) :
    (if c then x' else y') = (if c then x else y).mirrored e g := by
  split
  · exact hx
  · exact hy

/-- Logging and evaluating mirror each other also where something can fail. -/
theorem mirrored_lift {x : Traced Event α} {x' : Traced Event α'} (hx : x' = x.mirrored g) :
    (liftM x' : Run ε' α') = (liftM x : Run ε α).mirrored e g := by
  subst hx
  rfl

/-- A record mirrors itself in a run that can fail. -/
theorem mirrored_log (e : ε → ε') (n : Note) :
    (liftM (log n.mirrored) : Run ε' Unit) = (liftM (log n) : Run ε Unit).mirrored e id :=
  mirrored_lift (log_mirrored n)

/-- A counter says the same on both sides. -/
theorem mirrored_counted {x : Run ε α} {complete : α → Nat → β} {complete' : α' → Nat → β'}
    (hcomplete : ∀ a n, complete' (g a) n = h (complete a n)) :
    (x.mirrored e g).counted complete' = (x.counted complete).mirrored e h := by
  simp only [counted, mirrored]
  cases x.outcome with
  | error err => rfl
  | ok a => simp only [Except.mapError, Except.map, hcomplete]

end Run

/-! ## Evaluations -/

/-- The other sign is finite where the value is, and is reported where it is not. -/
theorem evaluate_mirrored (q : Quantity) (g : Float → Float) (x : Float) :
    evaluate q (-g) x = (evaluate q g x).mirrored RefineError.mirrored (- ·) := by
  -- the tick, the probe, and the look at the value
  refine Run.mirrored_bind (g := id) rfl fun _ => ?_
  refine Run.mirrored_bind (Run.mirrored_lift (probe_mirrored q g x)) fun y => ?_
  show (if (-y).isFinite = true then _ else _) = _
  rw [Binary64.isFinite_neg_self]
  exact Run.mirrored_ite rfl rfl

/-- A point of the graph of `-f` mirrors that of `f` at the same location. -/
theorem evaluatePoint_mirrored (f : Float → Float) (x : Float) :
    evaluatePoint (-f) x = (evaluatePoint f x).mirrored RefineError.mirrored Point.mirrored :=
  Run.mirrored_bind (evaluate_mirrored .value f x) fun _ => rfl

/-! ## Verdicts -/

/-- A sign change is one on the other side of the axis, too. -/
theorem Verdict.ofValues_neg (y y' : Float) : ofValues (-y) (-y') = ofValues y y' := by
  unfold ofValues
  -- NaN leaves the verdict open on both sides
  rw [Binary64.isNaN_neg, Binary64.isNaN_neg]
  split
  · rfl
  · next h =>
    obtain ⟨hy, hy'⟩ : y.isNaN = false ∧ y'.isNaN = false := by simpa using h
    -- otherwise both sign bits are turned over, and differ if they did before
    rw [Binary64.signBit_neg hy, Binary64.signBit_neg hy']
    cases Binary64.signBit y <;> cases Binary64.signBit y' <;> rfl

end ScalarRoots
