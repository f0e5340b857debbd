import ScalarRoots.Proofs.Batch.Restarts
import ScalarRoots.Proofs.Session.Commands

/-!
# Positions of a batch

In a batch of Muller's method, the seed at a position shares its offsets with no other, and it is
refined once more for every restart of the batch, each time from the root it has reached.  So what
is reported there depends on the seed at that position and on the number of restarts, and on the
other seeds only as far as they make the batch start again.

## Key results

- `Muller.lane`: the seed at a position, refined again and again
- `Muller.lane_add`: more restarts refine it further
- `Muller.Course.lane_eq_ok`: what a batch reports at a position
- `Muller.refineSeeds_positionwise`: two batches with the same seed at a position
-/

namespace ScalarRoots

/-- Of calls that all succeed, each has its value at its own position. -/
theorem Run.Succeed.exists_value {ε α : Type} {calls : List (Run ε α)} {values : List α}
    (h : Succeed calls values) {i : Nat} {x : Run ε α} (hx : calls[i]? = some x) :
    ∃ a, values[i]? = some a ∧ x.outcome = .ok a := by
  -- the outcomes, looked at position by position
  have hi := congrArg (·[i]?) h
  simp only [List.getElem?_map, hx, Option.map_some] at hi
  obtain ⟨a, ha, hok⟩ := Option.map_eq_some_iff.1 hi.symm
  exact ⟨a, ha, hok.symm⟩

namespace Muller

variable {f : Float → Float} {settings : MullerSettings}

/-- The refinement of the seed with number `i`. -/
def call (f : Float → Float) (settings : MullerSettings) (i : Nat) (x : Float) :
    Run RefineError Report :=
  refine f settings.toSettings x (x + settings.offsets.offsets.nth (2 * i))
    (x + settings.offsets.offsets.nth (2 * i + 1))

/-- The seed with number `i`, refined once and then again for every restart, from the root it has
    reached and with the same offsets. -/
def lane (f : Float → Float) (settings : MullerSettings) (i : Nat) :
    (restarts : Nat) → Float → Except RefineError Report
  | 0, x => (call f settings i x).outcome
  | restarts + 1, x => do
    let r ← (call f settings i x).outcome
    lane f settings i restarts r.root.x

/-- A lane goes on from the root that it has reached. -/
theorem lane_succ_of_ok {i : Nat} {x : Float} {r : Report}
    (h : (call f settings i x).outcome = .ok r) (restarts : Nat) :
    lane f settings i (restarts + 1) x = lane f settings i restarts r.root.x := by
  rw [lane, h]
  rfl

/-- More restarts refine a seed further, from the root that fewer have reached. -/
theorem lane_add {i n : Nat} {x : Float} {r : Report} (h : lane f settings i n x = .ok r)
    (m : Nat) : lane f settings i (n + 1 + m) x = lane f settings i m r.root.x := by
  -- Induction on the restarts that the first of the two lanes takes.
  induction n generalizing x with
  | zero =>
    rw [Nat.zero_add, Nat.add_comm]
    exact lane_succ_of_ok h m
  | succ n ih =>
    cases hcall : (call f settings i x).outcome with
    | error e =>
      rw [lane, hcall] at h
      cases h
    | ok r₁ =>
      rw [lane_succ_of_ok hcall] at h
      rw [Nat.add_right_comm, lane_succ_of_ok hcall]
      exact ih h

/-! ## Batches -/

/-- The call for a seed stands where the seed stands. -/
theorem getElem?_calls {seeds : List Float} {i : Nat} {x : Float} (h : seeds[i]? = some x) :
    (calls f settings seeds)[i]? = some (call f settings i x) := by
  rw [calls, List.getElem?_mapIdx, h]
  rfl

/-- What a batch reports at a position is what became of the seed there. -/
theorem Course.lane_eq_ok {done : Nat} {seeds : List Float} {later : List (List Float)}
    {b : Traced Event Batch} (h : Course f settings done seeds later b) {reports : List Report}
    (hout : b.value.outcome = .ok reports) {i : Nat} {x : Float} (hx : seeds[i]? = some x) :
    ∃ r, reports[i]? = some r ∧ lane f settings i later.length x = .ok r := by
  -- Induction on the passes: each of them hands the root at the position on to the next.
  induction h generalizing x with
  | last h => exact (h.of_ok hout).1.exists_value (getElem?_calls hx)
  | @again done seeds roots later t b hsing _ _ ih =>
    obtain ⟨r₁, hr₁, hcall⟩ := hsing.succeed.exists_value (getElem?_calls hx)
    have hroot : (roots.map (·.root.x))[i]? = some r₁.root.x := by
      rw [List.getElem?_map, hr₁]
      rfl
    obtain ⟨r, hr, hlane⟩ := ih hout hroot
    exact ⟨r, hr, (lane_succ_of_ok hcall _).trans hlane⟩

end Muller

/-! ## Sessions -/

/-- A refinement that answers with reports has them from the batch of its seeds, and the number of
    restarts as well. -/
theorem Session.refineAll_of_reports {solver : Solver} {s : Session} {seeds : Seeds}
    {xs : List Float} {reports : List Report} (hxs : s.resolve seeds = .ok xs)
    (h : (s.perform solver (.refineSeeds seeds)).value.2 = .ok (.reports reports)) :
    (solver.refineAll xs).value.outcome = .ok reports ∧
      (s.perform solver (.refineSeeds seeds)).value.1.restarts =
        (solver.refineAll xs).value.restarts := by
  rw [value_perform_refineSeeds, hxs] at h ⊢
  simp only at h ⊢
  -- an error would have been the answer
  cases hout : (solver.refineAll xs).value.outcome with
  | error e =>
    rw [hout] at h
    cases h
  | ok found =>
    rw [hout] at h
    cases h
    exact ⟨rfl, rfl⟩

/-- Reports that pass a test are there to be tested, after as many restarts as were counted. -/
private theorem exists_reports_of_any (solver : Solver) (s : Session) (xs : List Float)
    (restarts : Nat) (p : List Report → Bool)
    (h : ((solver.refineAll xs).value.restarts = restarts &&
      (solver.refineAll xs).value.outcome.toOption.any p) = true) :
    ∃ reports, (s.perform solver (.refineSeeds (.explicit xs))).value.2 = .ok (.reports reports) ∧
      (s.perform solver (.refineSeeds (.explicit xs))).value.1.restarts = restarts ∧
      p reports = true := by
  rw [Bool.and_eq_true, decide_eq_true_iff] at h
  obtain ⟨hrestarts, hany⟩ := h
  cases hout : (solver.refineAll xs).value.outcome with
  | error e =>
    rw [hout] at hany
    cases hany
  | ok reports =>
    rw [hout] at hany
    have hanswer : (s.perform solver (.refineSeeds (.explicit xs))).value.2 =
        .ok (.reports reports) := by
      rw [Session.answer_refineSeeds_explicit, hout]
      rfl
    exact ⟨reports, hanswer, (Session.refineAll_of_reports rfl hanswer).2.trans hrestarts, hany⟩

namespace Muller

variable {f : Float → Float} {settings : MullerSettings}

/-- A session of Muller's method reports at a position what became of the seed there. -/
theorem lane_of_reports {s : Session} {seeds : Seeds} {xs : List Float} {reports : List Report}
    (hxs : s.resolve seeds = .ok xs)
    (h : (s.perform (solver f settings) (.refineSeeds seeds)).value.2 = .ok (.reports reports)) :
    let restarts := (s.perform (solver f settings) (.refineSeeds seeds)).value.1.restarts
    reports.length = xs.length ∧ ∀ i x, xs[i]? = some x →
      ∃ r, reports[i]? = some r ∧ lane f settings i restarts x = .ok r := by
  intro restarts
  obtain ⟨hout, hrestarts⟩ := Session.refineAll_of_reports hxs h
  obtain ⟨later, hcourse⟩ := exists_course f settings (Nat.zero_add _) xs
  -- a session counts the passes after the first
  have hlater : restarts = later.length := by
    rw [← Nat.zero_add later.length]
    exact hrestarts.trans hcourse.restarts_eq
  rw [hlater]
  exact ⟨hcourse.length_reports hout, fun _ _ => hcourse.lane_eq_ok hout⟩

/-- Two refinements by Muller's method with the same function and settings, which both succeed,
    of lists with the same seed at some position.  If they took the same number of restarts, they
    have the same report there.  In any case the report is what became of that seed when it was
    refined once and then again for every restart, from the root it had reached.  So the other
    seeds can do no more than make the batch start again: with more restarts, a seed is refined
    further from the root that the other batch reports. -/
theorem refineSeeds_positionwise (f : Float → Float) (settings : MullerSettings) (s t : Session)
    (seeds seeds' : Seeds) (xs ys : List Float) (reports reports' : List Report) (i : Nat)
    (hxs : s.resolve seeds = .ok xs) (hys : t.resolve seeds' = .ok ys) (hi : xs[i]? = ys[i]?)
    (h : (s.perform (solver f settings) (.refineSeeds seeds)).value.2 = .ok (.reports reports))
    (h' : (t.perform (solver f settings) (.refineSeeds seeds')).value.2 =
      .ok (.reports reports')) :
    let restarts := (s.perform (solver f settings) (.refineSeeds seeds)).value.1.restarts
    let restarts' := (t.perform (solver f settings) (.refineSeeds seeds')).value.1.restarts
    (restarts = restarts' → reports[i]? = reports'[i]?) ∧
      (∀ x, xs[i]? = some x →
        ∃ r, reports[i]? = some r ∧ lane f settings i restarts x = .ok r) ∧
      ∀ more, restarts' = restarts + 1 + more → ∀ r, reports[i]? = some r →
        ∃ r', reports'[i]? = some r' ∧ lane f settings i more r.root.x = .ok r' := by
  intro restarts restarts'
  obtain ⟨hlength, hlane⟩ := lane_of_reports hxs h
  obtain ⟨hlength', hlane'⟩ := lane_of_reports hys h'
  refine ⟨fun hsame => ?_, hlane i, fun more hmore r hr => ?_⟩
  · -- with as many restarts, both lanes are the same; past the ends of the lists there is nothing
    cases hx : xs[i]? with
    | none =>
      have hy : ys[i]? = none := hi ▸ hx
      rw [List.getElem?_eq_none_iff, ← hlength] at hx
      rw [List.getElem?_eq_none_iff, ← hlength'] at hy
      rw [List.getElem?_eq_none hx, List.getElem?_eq_none hy]
    | some x =>
      obtain ⟨r, hr, hok⟩ := hlane i x hx
      obtain ⟨r', hr', hok'⟩ := hlane' i x (hi ▸ hx)
      have hsame' : lane f settings i restarts' x = .ok r := hsame ▸ hok
      rw [hr, hr', Except.ok.inj (hsame'.symm.trans hok')]
  · have hlt : i < xs.length := hlength ▸ (List.getElem?_eq_some_iff.1 hr).1
    have hx := List.getElem?_eq_getElem hlt
    obtain ⟨r₁, hr₁, hok⟩ := hlane i _ hx
    obtain rfl : r₁ = r := Option.some.inj (hr₁.symm.trans hr)
    obtain ⟨r', hr', hok'⟩ := hlane' i _ (hi ▸ hx)
    -- the longer lane goes on where the shorter one has ended
    have hfurther := lane_add hok more
    rw [← hmore] at hfurther
    exact ⟨r', hr', hfurther.symm.trans hok'⟩

/-- Settings with which the other starts lie one and two before a seed. -/
def backward : MullerSettings where
  offsets := ⟨.alternating (-1) (-2), by decide +kernel⟩

/-- The roots zero and three of a parabola are sought with these settings. -/
def backwardSolver : Solver := solver (fun x => x * (x - 3)) backward

/-- Next to the seed ten, the seed 5.5 leads to the root three. -/
private theorem exists_reports_regular :
    ∃ reports, (({} : Session).perform backwardSolver
        (.refineSeeds (.explicit [5.5, 10]))).value.2 = .ok (.reports reports) ∧
      (({} : Session).perform backwardSolver
        (.refineSeeds (.explicit [5.5, 10]))).value.1.restarts = 0 ∧
      reports[0]?.any (·.root.x == 3) = true :=
  exists_reports_of_any backwardSolver {} [5.5, 10] 0
    (fun reports => reports[0]?.any (·.root.x == 3)) (by decide +kernel)

/-- The seed 5.5 is reported alike next to ten and next to eleven. -/
theorem refineSeeds_positionwise_regular :
    let answer (xs : List Float) :=
      (({} : Session).perform backwardSolver (.refineSeeds (.explicit xs))).value
    ∃ reports reports', (answer [5.5, 10]).2 = .ok (.reports reports) ∧
      (answer [5.5, 11]).2 = .ok (.reports reports') ∧
      (answer [5.5, 10]).1.restarts = (answer [5.5, 11]).1.restarts ∧
      reports[0]? = reports'[0]? := by
  intro answer
  obtain ⟨reports, h, hnone, -⟩ := exists_reports_regular
  obtain ⟨reports', h', hnone', -⟩ := exists_reports_of_any backwardSolver {}
    [5.5, 11] 0 (fun _ => true) (by decide +kernel)
  -- neither batch starts again
  have hrestarts := hnone.trans hnone'.symm
  have hfirst : ([5.5, 10] : List Float)[0]? = [5.5, 11][0]? := by
    rw [List.getElem?_cons_zero, List.getElem?_cons_zero]
  have hsame := refineSeeds_positionwise (fun x => x * (x - 3)) backward {} {}
    (.explicit [5.5, 10]) (.explicit [5.5, 11]) [5.5, 10] [5.5, 11] reports reports' 0
    rfl rfl hfirst h h'
  exact ⟨reports, reports', h, h', hrestarts, hsame.1 hrestarts⟩

/-- Next to `2 ^ 53 + 2`, whose other starts are both rounded to `2 ^ 53`, the batch starts again,
    and the seed 5.5 is refined from the root three to the root zero. -/
theorem exists_position_differs :
    let answer (xs : List Float) :=
      (({} : Session).perform backwardSolver (.refineSeeds (.explicit xs))).value
    ∃ reports reports' r r', (answer [5.5, 10]).2 = .ok (.reports reports) ∧
      (answer [5.5, Float.ofBits 0x4340000000000001]).2 = .ok (.reports reports') ∧
      reports[0]? = some r ∧ reports'[0]? = some r' ∧ (r.root.x == 3) = true ∧
      (r'.root.x == 0) = true := by
  intro answer
  obtain ⟨reports, h, -, hroot⟩ := exists_reports_regular
  obtain ⟨reports', h', -, hroot'⟩ := exists_reports_of_any backwardSolver {}
    [5.5, Float.ofBits 0x4340000000000001] 1 (fun reports => reports[0]?.any (·.root.x == 0))
    (by decide +kernel)
  obtain ⟨r, hr, hthree⟩ := (Option.any_eq_true ..).1 hroot
  obtain ⟨r', hr', hzero⟩ := (Option.any_eq_true ..).1 hroot'
  exact ⟨reports, reports', r, r', h, h', hr, hr', hthree, hzero⟩

end Muller

end ScalarRoots
