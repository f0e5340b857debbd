import ScalarRoots.Proofs.Binary64.Arithmetic
import ScalarRoots.Proofs.Refinement.Course
import ScalarRoots.Proofs.Refinement.Family
import ScalarRoots.Proofs.Refinement.Steps

/-!
# Newton steps that overflow

Newton's method and the multipoint iteration subtract a step from a location to get the next
one.  The step is checked to be finite, the difference is not.  So a function is never
evaluated at NaN, and it is evaluated at finite numbers only until a difference overflows,
which takes a location or a step beyond half of the greatest finite number.  What comes after
that may even be reported as a root.

## Key results

- `Chained`: evaluations whose locations come out of one another by finite steps
- `Chained.isFinite_or_overflows`: they are finite, or a difference overflows
- `Run.Prolongs`: what a run evaluates prolongs a chain
- `Newton.prolongs_step` / `Multipoint.prolongs_step`: the steps of the two methods
- `Refinement.finite_or_overflows`: where the two methods evaluate
- `Refinement.exists_root_at_infinity`: a root that is not finite
-/

namespace ScalarRoots

open Binary64

/-! ## Chains of evaluations -/

/-- One of the evaluations is at the location. -/
def Probed (ps : List Probe) (x : Float) : Prop := ∃ p ∈ ps, p.location = x

/-- What was evaluated at stays so, whatever else is evaluated. -/
theorem Probed.mono {ps qs : List Probe} {x : Float} (h : Probed ps x) (hsub : ps ⊆ qs) :
    Probed qs x := by
  obtain ⟨p, hp, rfl⟩ := h
  exact ⟨p, hsub hp, rfl⟩

/-- What holds at all evaluations holds at the location of one of them. -/
theorem Probed.property {P : Float → Prop} {ps : List Probe} {x : Float} (h : Probed ps x)
    (hall : ∀ p ∈ ps, P p.location) : P x := by
  obtain ⟨p, hp, rfl⟩ := h
  exact hall p hp

/-- The location follows from some evaluations: it is the finite start, or one of theirs, or a
    finite step away from one of theirs.  The steps are those that a rule names for a
    location. -/
inductive Follows (rule : Float → Float → Prop) (x₀ : Float) (ps : List Probe) : Float → Prop where
  | start (h : x₀.isFinite = true) : Follows rule x₀ ps x₀
  | again {x : Float} (h : Probed ps x) : Follows rule x₀ ps x
  | moved {x d : Float} (h : Probed ps x) (hd : rule x d) (hfin : d.isFinite = true) :
      Follows rule x₀ ps (x - d)

/-- Every evaluation is at a location that follows from the evaluations before it. -/
inductive Chained (rule : Float → Float → Prop) (x₀ : Float) : List Probe → Prop where
  | nil : Chained rule x₀ []
  | snoc {ps : List Probe} {p : Probe} (h : Chained rule x₀ ps)
      (hp : Follows rule x₀ ps p.location) : Chained rule x₀ (ps ++ [p])

/-- At finite locations the evaluations come to one whose location is not finite.  It was to be
    a step away from one of those before, and the difference overflowed. -/
def Overflows (rule : Float → Float → Prop) (ps : List Probe) : Prop :=
  ∃ before p after, ps = before ++ p :: after ∧ (∀ q ∈ before, q.location.isFinite = true) ∧
    ∃ x d, Probed before x ∧ rule x d ∧ d.isFinite = true ∧
      p.location = x - d ∧ p.location.isFinite = false ∧
        (halfGreatest < x.abs ∨ halfGreatest < d.abs)

variable {rule : Float → Float → Prop} {x₀ : Float} {ps : List Probe}

/-- No evaluation of a chain is at NaN. -/
theorem Chained.isNaN_location (h : Chained rule x₀ ps) :
    ∀ p ∈ ps, p.location.isNaN = false := by
  induction h with
  | nil => exact nofun
  | @snoc ps p _ hp ih =>
    refine List.forall_mem_append.2 ⟨ih, List.forall_mem_singleton.2 ?_⟩
    -- generalized, since the location of the evaluation is no variable
    generalize p.location = x at hp
    -- the start, a location again, or a finite step from one
    cases hp with
    | start hfin => exact isNaN_of_isFinite hfin
    | again hx => exact hx.property (P := (·.isNaN = false)) ih
    | moved hx _ hfin => exact isNaN_sub (hx.property (P := (·.isNaN = false)) ih) hfin

/-- Where finite locations are followed by one that is not, a difference overflows. -/
theorem overflows_snoc {p : Probe} (hfin : ∀ q ∈ ps, q.location.isFinite = true)
    (hp : Follows rule x₀ ps p.location) (hover : p.location.isFinite = false) :
    Overflows rule (ps ++ [p]) := by
  have hprobed {x : Float} (hx : Probed ps x) : x.isFinite = true :=
    hx.property (P := (·.isFinite = true)) hfin
  refine ⟨ps, p, [], rfl, hfin, ?_⟩
  generalize p.location = x at hp hover
  -- only a step away from a location can leave the finite numbers
  cases hp with
  | start hstart =>
    rw [hstart] at hover
    cases hover
  | again hx =>
    rw [hprobed hx] at hover
    cases hover
  | @moved x d hx hd hdfin =>
    refine ⟨x, d, hx, hd, hdfin, rfl, hover, ?_⟩
    -- two numbers that are not that large would have a finite difference
    by_contra hsmall
    obtain ⟨hxle, hdle⟩ := not_or.1 hsmall
    have hhalf : halfGreatest.isNaN = false := by decide +kernel
    have habs {y : Float} (hy : y.isFinite = true) : y.abs.isNaN = false :=
      (isNaN_abs y).trans (isNaN_of_isFinite hy)
    rw [isFinite_sub_of_abs_le (le_of_not_lt hhalf (habs (hprobed hx)) hxle)
      (le_of_not_lt hhalf (habs hdfin) hdle)] at hover
    cases hover

/-- The locations of a chain are finite, unless a difference overflows. -/
theorem Chained.isFinite_or_overflows (h : Chained rule x₀ ps) :
    (∀ p ∈ ps, p.location.isFinite = true) ∨ Overflows rule ps := by
  induction h with
  | nil => exact .inl nofun
  | @snoc ps p _ hp ih =>
    -- induction on the chain, in the order of the evaluations
    rcases ih with hfin | hover
    · cases hloc : p.location.isFinite with
      | true =>
        exact .inl (List.forall_mem_append.2 ⟨hfin, List.forall_mem_singleton.2 hloc⟩)
      | false => exact .inr (overflows_snoc hfin hp hloc)
    · -- nothing that comes after an overflow changes it
      obtain ⟨before, q, after, rfl, hrest⟩ := hover
      exact .inr ⟨before, q, after ++ [p], by simp, hrest⟩

/-! ## Runs -/

namespace Run

variable {ε α β : Type}

/-- After the evaluations `ps`, which are chained, those of the run prolong the chain; and if
    the run succeeds, then `post` holds of all of them and its value. -/
structure Prolongs (rule : Float → Float → Prop) (x₀ : Float) (ps : List Probe) (x : Run ε α)
    (post : List Probe → α → Prop) : Prop where
  chained : Chained rule x₀ (ps ++ x.probes)
  post : ∀ a, x.outcome = .ok a → post (ps ++ x.probes) a

/-- A run without evaluations keeps the chain. -/
theorem Prolongs.of_probes_eq_nil {x : Run ε α} {post : List Probe → α → Prop}
    (h : Chained rule x₀ ps) (hx : x.probes = [])
    (hpost : ∀ a, x.outcome = .ok a → post ps a) : x.Prolongs rule x₀ ps post := by
  refine ⟨?_, ?_⟩ <;> rw [hx, List.append_nil]
  · exact h
  · exact hpost

/-- A value keeps the chain. -/
theorem Prolongs.pure {a : α} {post : List Probe → α → Prop} (h : Chained rule x₀ ps)
    (hpost : post ps a) : (Pure.pure a : Run ε α).Prolongs rule x₀ ps post :=
  .of_probes_eq_nil h rfl fun _ hb => Except.ok.inj hb ▸ hpost

/-- An error keeps the chain. -/
theorem Prolongs.throw {e : ε} {post : List Probe → α → Prop} (h : Chained rule x₀ ps) :
    (MonadExcept.throw e : Run ε α).Prolongs rule x₀ ps post :=
  .of_probes_eq_nil h rfl nofun

/-- A record keeps the chain. -/
theorem Prolongs.log {n : Note} (h : Chained rule x₀ ps) :
    (liftM (ScalarRoots.log n) : Run ε Unit).Prolongs rule x₀ ps fun _ _ => True :=
  .of_probes_eq_nil h rfl fun _ _ => trivial

/-- A bound run prolongs the chain when its second part goes on from where the first one has
    come to. -/
theorem Prolongs.bind {x : Run ε α} {g : α → Run ε β} {mid : List Probe → α → Prop}
    {post : List Probe → β → Prop} (hx : x.Prolongs rule x₀ ps mid)
    (hg : ∀ qs a, Chained rule x₀ qs → ps ⊆ qs → mid qs a → (g a).Prolongs rule x₀ qs post) :
    (x >>= g).Prolongs rule x₀ ps post := by
  cases h : x.outcome with
  | error e =>
    rw [bind_of_error h]
    exact ⟨hx.chained, nofun⟩
  | ok a =>
    -- the second part goes on from the chain that the first one leaves
    have hrest := hg _ a hx.chained (List.subset_append_left ps _) (hx.post a h)
    refine ⟨?_, fun b hb => ?_⟩ <;> rw [probes_bind_of_ok h, ← List.append_assoc]
    · exact hrest.chained
    · rw [bind_of_ok h] at hb
      exact hrest.post b hb

/-- An evaluation prolongs the chain when its location follows. -/
theorem Prolongs.evaluate {q : Quantity} {g : Float → Float} {x : Float}
    (h : Chained rule x₀ ps) (hx : Follows rule x₀ ps x) :
    (ScalarRoots.evaluate q g x).Prolongs rule x₀ ps fun qs y => y = g x ∧ Probed qs x := by
  refine ⟨?_, fun y hy => ?_⟩ <;> rw [probes_evaluate]
  · exact .snoc h hx
  · rw [outcome_evaluate] at hy
    split at hy
    · cases hy
      exact ⟨rfl, _, List.mem_append_right ps (List.mem_singleton_self _), rfl⟩
    · cases hy

/-- So does the evaluation of a point. -/
theorem Prolongs.evaluatePoint {f : Float → Float} {x : Float} (h : Chained rule x₀ ps)
    (hx : Follows rule x₀ ps x) :
    (ScalarRoots.evaluatePoint f x).Prolongs rule x₀ ps fun qs p =>
      p = ⟨x, f x⟩ ∧ Probed qs x := by
  refine (Prolongs.evaluate h hx).bind fun qs y hqs _ hy => .pure hqs ?_
  obtain ⟨rfl, hprobed⟩ := hy
  exact ⟨rfl, hprobed⟩

/-- A value that depends on a check keeps the chain. -/
theorem Prolongs.guarded {b : Bool} {a : α} {e : ε} {post : List Probe → α → Prop}
    (h : Chained rule x₀ ps) (hpost : b = true → post ps a) :
    (if b = true then Pure.pure a else MonadExcept.throw e : Run ε α).Prolongs rule x₀ ps
      post := by
  split
  · next hb => exact .pure h (hpost hb)
  · exact .throw h

/-- A counter keeps the chain. -/
theorem Prolongs.counted {x : Run ε α} {complete : α → Nat → β} {post : List Probe → α → Prop}
    {post' : List Probe → β → Prop} (hx : x.Prolongs rule x₀ ps post)
    (h : ∀ qs a n, post qs a → post' qs (complete a n)) :
    (x.counted complete).Prolongs rule x₀ ps post' := by
  refine ⟨hx.chained, fun b hb => ?_⟩
  obtain ⟨a, ha, rfl⟩ := outcome_counted_eq_ok.1 hb
  exact h _ _ _ (hx.post a ha)

end Run

/-! ## Iterations from one point -/

/-- Both locations of the state were evaluated at, and the newer one has its value. -/
structure OnePoint.IsProbed (f : Float → Float) (ps : List Probe) (s : OnePoint) : Prop where
  value_eq : s.current.y = f s.current.x
  current : Probed ps s.current.x
  previous : Probed ps s.previous

/-- The root and the points of the stencil were evaluated at. -/
def Finish.IsProbed (ps : List Probe) (fin : Finish) : Prop :=
  Probed ps fin.root.x ∧ ∀ x ∈ fin.stencil.points, Probed ps x

/-- A state that was evaluated stays so. -/
theorem OnePoint.IsProbed.mono {f : Float → Float} {qs : List Probe} {s : OnePoint}
    (hs : s.IsProbed f ps) (hsub : ps ⊆ qs) : s.IsProbed f qs :=
  ⟨hs.value_eq, hs.current.mono hsub, hs.previous.mono hsub⟩

/-- So is its stencil, the previous location. -/
theorem OnePoint.IsProbed.stencil {f : Float → Float} {s : OnePoint} (hs : s.IsProbed f ps) :
    ∀ x ∈ s.stencil.points, Probed ps x := by
  intro x hx
  rw [List.mem_singleton.1 hx]
  exact hs.previous

/-- A step goes on from the evaluations so far. -/
def ProlongsSteps (rule : Float → Float → Prop) (x₀ : Float) (f : Float → Float)
    (step : Nat → OnePoint → Run RefineError (Advance OnePoint)) : Prop :=
  ∀ number s ps, Chained rule x₀ ps → s.IsProbed f ps →
    (step number s).Prolongs rule x₀ ps fun qs advance =>
      ∃ next, advance = .moved next ∧ next.IsProbed f qs

section Iterate

variable {f : Float → Float} {step : Nat → OnePoint → Run RefineError (Advance OnePoint)}

/-- An iteration prolongs the chain when its steps do, and ends at points it has evaluated. -/
theorem prolongs_iterate (hstep : ProlongsSteps rule x₀ f step) (a : Algorithm) (t : Tolerance)
    (start : Stencil) {left done : Nat} {best : Point Float} {s : OnePoint}
    (h : Chained rule x₀ ps) (hs : s.IsProbed f ps) (hbest : Probed ps best.x) :
    (iterate (OnePoint.scheme a t step) start left done best s).Prolongs rule x₀ ps
      fun qs fin => fin.IsProbed qs := by
  -- Carried over are the chain, the state and the best point.
  refine iterate_induction (motive := fun _ _ best s x =>
    ∀ ps, Chained rule x₀ ps → s.IsProbed f ps → Probed ps best.x →
      x.Prolongs rule x₀ ps fun qs fin => fin.IsProbed qs)
    ?met ?exhausted ?step left done best s ps h hs hbest
  case met => exact fun _ _ _ s _ _ ps h hs _ => .pure h ⟨hs.current, hs.stencil⟩
  -- the best point was evaluated earlier
  case exhausted =>
    intro done best s _ ps h hs hbest
    exact (Run.Prolongs.log h).bind fun qs _ hqs hsub _ =>
      .pure hqs ⟨hbest.mono hsub, (hs.mono hsub).stencil⟩
  case step =>
    intro left done best s _ ih ps h hs hbest
    refine (hstep (done + 1) s ps h hs).bind fun qs advance hqs hsub hnext => ?_
    obtain ⟨next, rfl, hnext⟩ := hnext
    -- the better of two evaluated points was evaluated
    have hbest' : Probed qs (best.better next.current).x := by
      rcases Point.better_eq_or best next.current with hold | hnew
      · rw [hold]
        exact hbest.mono hsub
      · rw [hnew]
        exact hnext.current
    exact ih _ next qs hqs hnext hbest'

/-- A start evaluates at its location, if that is finite. -/
theorem OnePoint.prolongs_start (rule : Float → Float → Prop) (f : Float → Float) (x₀ : Float) :
    (start f x₀).Prolongs rule x₀ [] fun qs s => s.IsProbed f qs := by
  unfold start
  split
  · next hfin =>
    refine (Run.Prolongs.evaluatePoint .nil (.start hfin)).bind fun qs p hqs _ hp => ?_
    obtain ⟨rfl, hprobed⟩ := hp
    exact .pure hqs ⟨rfl, hprobed, hprobed⟩
  · exact .throw .nil

/-- A refinement from one point prolongs the empty chain, and reports points it has evaluated. -/
theorem prolongs_refine (hstep : ProlongsSteps rule x₀ f step) (a : Algorithm) (t : Tolerance)
    (settings : Settings) :
    (refine (OnePoint.scheme a t step) settings (OnePoint.start f x₀)).Prolongs rule x₀ []
      fun qs r => Probed qs r.root.x ∧ ∀ x ∈ r.stencil.points, Probed qs x := by
  have hrun := (OnePoint.prolongs_start rule f x₀).bind
    (g := fun s => iterate (OnePoint.scheme a t step) s.stencil
      (a.budget (settings.iterations.map (·.toNat))) 0 s.current s)
    fun qs s hqs _ hs => prolongs_iterate hstep a t s.stencil hqs hs hs.current
  exact hrun.counted fun qs fin n hfin => hfin

end Iterate

/-! ## The two methods -/

/-- What Newton's method and the multipoint iteration subtract from a location: Newton steps,
    half of them, and steps with the slope at another location. -/
def Refinement.Subtracts (f : Float → Float) : Refinement → Float → Float → Prop
  | newton df _, x, d => d = f x / df x
  | multipoint df .midpointDerivative _, x, d =>
    d = 0.5 * (f x / df x) ∨ d = f x / df (x - 0.5 * (f x / df x))
  | multipoint df .predictorCorrector _, x, d =>
    d = f x / df x ∨ ∃ w, x = w - f w / df w ∧ d = f x / df w
  | _, _, _ => False

/-- Both methods end a step by going to a location that follows. -/
theorem prolongs_moveTo {f : Float → Float} {s : OnePoint} {x : Float} (h : Chained rule x₀ ps)
    (hs : s.IsProbed f ps) (hx : Follows rule x₀ ps x) (note : Point Float → Note) :
    (do
      let next ← evaluatePoint f x
      log (note next)
      return .moved (s.moveTo next) : Run RefineError (Advance OnePoint)).Prolongs rule x₀ ps
        fun qs advance => ∃ next, advance = .moved next ∧ next.IsProbed f qs := by
  refine (Run.Prolongs.evaluatePoint h hx).bind fun qs p hqs hsub hp => ?_
  obtain ⟨rfl, hprobed⟩ := hp
  refine (Run.Prolongs.log hqs).bind fun qs' _ hqs' hsub' _ => ?_
  exact .pure hqs' ⟨_, rfl, rfl, hprobed.mono hsub', (hs.current.mono hsub).mono hsub'⟩

/-- A Newton step is the quotient of value and slope, and finite. -/
theorem prolongs_newtonStep {df : Float → Float} {p : Point Float} (h : Chained rule x₀ ps)
    (hp : Probed ps p.x) :
    (newtonStep df p).Prolongs rule x₀ ps fun _ newton =>
      newton.step = p.y / df p.x ∧ newton.step.isFinite = true := by
  unfold newtonStep
  refine (Run.Prolongs.evaluate h (.again hp)).bind fun qs slope hqs _ hslope => ?_
  obtain ⟨rfl, -⟩ := hslope
  exact .guarded hqs fun hfin => ⟨rfl, hfin⟩

/-- A step of Newton's method subtracts the Newton step. -/
theorem Newton.prolongs_step (f df : Float → Float) (x₀ : Float) :
    ProlongsSteps ((Refinement.newton df x₀).Subtracts f) x₀ f (step f df) := by
  intro number s ps h hs
  refine (prolongs_newtonStep h hs.current).bind fun qs newton hqs hsub hnewton => ?_
  obtain ⟨hstep, hfin⟩ := hnewton
  rw [hs.value_eq] at hstep
  exact prolongs_moveTo hqs (hs.mono hsub) (.moved (hs.current.mono hsub) hstep hfin) _

namespace Multipoint

/-- A quotient that passes its check is finite. -/
theorem prolongs_checkedRatio {y x slope : Float} (h : Chained rule x₀ ps) :
    (checkedRatio y x slope).Prolongs rule x₀ ps fun _ ratio =>
      ratio = y / slope ∧ ratio.isFinite = true :=
  .guarded h fun hfin => ⟨rfl, hfin⟩

/-- The location that a rule leads to is a finite step away from one that was evaluated at. -/
theorem prolongs_nextLocation {f df : Float → Float} {kind : MultipointRule} {p : Point Float}
    (h : Chained ((Refinement.multipoint df kind x₀).Subtracts f) x₀ ps) (hp : Probed ps p.x)
    (hy : p.y = f p.x) :
    (nextLocation f df kind p).Prolongs ((Refinement.multipoint df kind x₀).Subtracts f) x₀ ps
      fun qs x => Follows ((Refinement.multipoint df kind x₀).Subtracts f) x₀ qs x := by
  unfold nextLocation
  rw [hy]
  refine (Run.Prolongs.evaluate h (.again hp)).bind fun qs slope hqs hsub hslope => ?_
  obtain ⟨rfl, -⟩ := hslope
  refine (prolongs_checkedRatio hqs).bind fun qs newton hqs hsub' hnewton => ?_
  obtain ⟨rfl, hfin⟩ := hnewton
  replace hp := (hp.mono hsub).mono hsub'
  -- both rules start with a finite Newton step
  cases kind with
  | midpointDerivative =>
    -- half of a finite step is finite
    refine (Run.Prolongs.evaluate hqs (.moved hp (.inl rfl) (isFinite_half_mul hfin))).bind
      fun qs slope hqs hsub hslope => ?_
    obtain ⟨rfl, -⟩ := hslope
    refine (prolongs_checkedRatio hqs).bind fun qs step hqs hsub' hstep => ?_
    obtain ⟨rfl, hfin'⟩ := hstep
    exact .pure hqs (.moved ((hp.mono hsub).mono hsub') (.inr rfl) hfin')
  | predictorCorrector =>
    refine (Run.Prolongs.evaluatePoint hqs (.moved hp (.inl rfl) hfin)).bind
      fun qs q hqs hsub hq => ?_
    obtain ⟨rfl, hprobed⟩ := hq
    refine (prolongs_checkedRatio hqs).bind fun qs step hqs hsub' hstep => ?_
    obtain ⟨rfl, hfin'⟩ := hstep
    exact .pure hqs (.moved (hprobed.mono hsub') (.inr ⟨p.x, rfl, rfl⟩) hfin')

/-- A step of the multipoint iteration goes to a location that follows. -/
theorem prolongs_step (f df : Float → Float) (kind : MultipointRule) (x₀ : Float) :
    ProlongsSteps ((Refinement.multipoint df kind x₀).Subtracts f) x₀ f (step f df kind) := by
  intro number s ps h hs
  exact (prolongs_nextLocation h hs.current hs.value_eq).bind fun qs x hqs hsub hx =>
    prolongs_moveTo hqs (hs.mono hsub) hx _

end Multipoint

namespace Refinement

/-- What Newton's method and the multipoint iteration evaluate is chained, and they report
    points that they have evaluated. -/
theorem exists_prolongs_run {m : Refinement}
    (hm : m.algorithm = .newton ∨ m.algorithm = .multipoint) (f : Float → Float)
    (settings : Settings) :
    ∃ x₀, (m.run f settings).Prolongs (m.Subtracts f) x₀ [] fun qs r =>
      Probed qs r.root.x ∧ ∀ x ∈ r.stencil.points, Probed qs x := by
  cases m with
  | newton df x₀ => exact ⟨x₀, prolongs_refine (Newton.prolongs_step f df x₀) _ _ _⟩
  | multipoint df kind x₀ =>
    exact ⟨x₀, prolongs_refine (Multipoint.prolongs_step f df kind x₀) _ _ _⟩
  | _ => rcases hm with hm | hm <;> cases hm

/-- Where Newton's method and the multipoint iteration, by either rule, leave the finite numbers.
    They evaluate the function and its derivative nowhere at NaN, and the root and the stencil
    of a report are points that they have evaluated.  All of these are finite, unless a
    difference overflows: after evaluations at finite points comes one at an infinite point,
    which is a finite step away from one of them, and either that point or the step exceeds
    half of the greatest finite number. -/
theorem finite_or_overflows (m : Refinement) (f : Float → Float) (settings : Settings)
    (hm : m.algorithm = .newton ∨ m.algorithm = .multipoint) :
    (∀ p ∈ (m.run f settings).probes, p.location.isNaN = false) ∧
      (∀ r, (m.run f settings).outcome = .ok r →
        ∀ x ∈ r.root.x :: r.stencil.points, Probed (m.run f settings).probes x) ∧
      ((∀ p ∈ (m.run f settings).probes, p.location.isFinite = true) ∨
        Overflows (m.Subtracts f) (m.run f settings).probes) := by
  obtain ⟨x₀, hchained, hreport⟩ := exists_prolongs_run hm f settings
  refine ⟨hchained.isNaN_location, fun r hr => ?_, hchained.isFinite_or_overflows⟩
  obtain ⟨hroot, hstencil⟩ := hreport r hr
  exact List.forall_mem_cons.2 ⟨hroot, hstencil⟩

/-- Newton's method on the root of two. -/
theorem finite_or_overflows_root_two :
    ((newton (fun x => 2 * x) 1).run (fun x => x * x - 2) {}).probes.length = 7 ∧
      ∀ p ∈ ((newton (fun x => 2 * x) 1).run (fun x => x * x - 2) {}).probes,
        p.location.isNaN = false :=
  ⟨by decide +kernel, (finite_or_overflows (newton (fun x => 2 * x) 1) (fun x => x * x - 2) {}
    (.inl rfl)).1⟩

/-- A root need not be finite.  At `2 ^ 1023` the value of `2 ^ 1010 / x` is `2 ^ (-13)` and its
    slope `-2 ^ (-1036)`.  The Newton step, `-2 ^ 1023`, is finite, but the location it leads to
    is not, and at infinity the function is zero.  With this slope everywhere, Newton's method
    and both rules of the multipoint iteration report infinity as the root. -/
theorem exists_root_at_infinity :
    ∃ (f df : Float → Float) (x₀ : Float), x₀.isFinite = true ∧
      ∀ m ∈ [newton df x₀, multipoint df .midpointDerivative x₀,
          multipoint df .predictorCorrector x₀],
        (∃ p ∈ (m.run f {}).probes, p.location.isFinite = false) ∧
          ∃ r, (m.run f {}).outcome = .ok r ∧ r.root.x.isFinite = false := by
  refine ⟨fun x => Float.ofBits 0x7f10000000000000 / x, fun _ => -Float.ofBits 0x0000004000000000,
    Float.ofBits 0x7fe0000000000000, by decide +kernel, fun m hm => ?_⟩
  suffices h : (∃ p ∈ (m.run (fun x => Float.ofBits 0x7f10000000000000 / x) {}).probes,
      p.location.isFinite = false) ∧
      (m.run (fun x => Float.ofBits 0x7f10000000000000 / x) {}).outcome.toOption.any
        (!·.root.x.isFinite) = true by
    obtain ⟨r, hr, hroot⟩ := exists_report_of_any h.2
    exact ⟨h.1, r, hr, Bool.not_eq_true' _ ▸ hroot⟩
  -- three runs, one for each method
  simp only [List.mem_cons, List.not_mem_nil, or_false] at hm
  rcases hm with rfl | rfl | rfl <;> decide +kernel

end Refinement

end ScalarRoots
