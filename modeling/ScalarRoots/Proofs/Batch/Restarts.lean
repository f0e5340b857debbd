import Mathlib.Data.List.Chain
import ScalarRoots.Proofs.Batch.Silence
import ScalarRoots.Proofs.Offsets
import ScalarRoots.Refinement.Batch

/-!
# Restarts of a batch

Muller's method makes one pass over the seeds after the other, as long as some seed ends in a
singular system and restarts are left; the roots of a pass are the seeds of the next.  How a
batch goes is told by the seeds of its passes, and everything else follows from them: the
number of restarts, what is announced, and what the batch comes to.

## Key results

- `Muller.Course`: how a batch goes, pass by pass
- `Muller.exists_course`: every batch has a course
- `Muller.Course.isChain` / `Muller.Course.concludes`: how the passes hang together, and what
  the last one decides
- `Muller.Course.withoutRestarts_transcript` / `Muller.Course.restarts_transcript`: what
  happens, and what is announced
- `Muller.refineAll_passes`: the passes of a batch, and what it comes to
-/

namespace ScalarRoots

namespace Transcript

/-- The restarts announced, in order: the number of each, and how many there may be. -/
def restarts (t : Transcript) : List (Nat × Nat) := t.filterMap Event.restart?

/-- What happens apart from the announcements of restarts. -/
def withoutRestarts (t : Transcript) : Transcript := t.filter (·.restart?.isNone)

/-- The restarts of a transcript are those of its parts. -/
theorem restarts_append (s t : Transcript) : restarts (s ++ t) = restarts s ++ restarts t :=
  List.filterMap_append

/-- And so is what happens besides. -/
theorem withoutRestarts_append (s t : Transcript) :
    withoutRestarts (s ++ t) = withoutRestarts s ++ withoutRestarts t :=
  List.filter_append ..

/-- A restart is announced with its number and the limit. -/
theorem restarts_cons_restart (singular number limit : Nat) (t : Transcript) :
    restarts (.note (.restart singular number limit) :: t) = (number, limit) :: restarts t :=
  rfl

/-- The announcement falls away when restarts are left out. -/
theorem withoutRestarts_cons_restart (singular number limit : Nat) (t : Transcript) :
    withoutRestarts (.note (.restart singular number limit) :: t) = withoutRestarts t :=
  rfl

end Transcript

namespace Muller

variable {f : Float → Float} {settings : MullerSettings} {seeds : List Float}

/-! ## Passes -/

/-- The refinements of a pass, one for each seed and in the order of the seeds.  The seed with
    number `i` is refined together with what lies the offsets with the numbers `2 * i` and
    `2 * i + 1` away from it. -/
def calls (f : Float → Float) (settings : MullerSettings) (seeds : List Float) :
    List (Run RefineError Report) :=
  seeds.mapIdx fun i x =>
    refine f settings.toSettings x (x + settings.offsets.offsets.nth (2 * i))
      (x + settings.offsets.offsets.nth (2 * i + 1))

/-- The pass over the seeds succeeds with these reports, and some report is singular. -/
structure IsSingularPass (f : Float → Float) (settings : MullerSettings) (seeds : List Float)
    (reports : List Report) : Prop where
  succeed : Run.Succeed (calls f settings seeds) reports
  singular : ∃ r ∈ reports, r.isSingular = true

/-- A pass makes a batch start again with other seeds, the roots that it has reached. -/
def StartsAgain (f : Float → Float) (settings : MullerSettings) (seeds next : List Float) :
    Prop :=
  ∃ reports, IsSingularPass f settings seeds reports ∧ next = reports.map (·.root.x)

/-- A pass makes its refinements in order, each with two of the offsets. -/
theorem pass_eq_inOrder (f : Float → Float) (settings : MullerSettings) (seeds : List Float) :
    pass f settings seeds = Run.inOrder (calls f settings seeds) := by
  unfold pass
  rw [Run.mapM_eq_inOrder, Offsets.map_zip_takePairs]
  rfl

/-- A pass succeeds when every refinement does. -/
theorem outcome_pass_eq_ok {reports : List Report} :
    (pass f settings seeds).outcome = .ok reports ↔
      Run.Succeed (calls f settings seeds) reports := by
  rw [pass_eq_inOrder, Run.outcome_inOrder_eq_ok]

/-- A pass fails, leaves no singular system, or leaves some. -/
theorem pass_cases (f : Float → Float) (settings : MullerSettings) (seeds : List Float) :
    (∃ e, (pass f settings seeds).outcome = .error e) ∨
      (∃ reports, Run.Succeed (calls f settings seeds) reports ∧
        ∀ r ∈ reports, r.isSingular = false) ∨
      ∃ reports, IsSingularPass f settings seeds reports := by
  -- the reports of a pass that succeeds are all regular, or one of them is singular
  cases h : (pass f settings seeds).outcome with
  | error e => exact .inl ⟨e, rfl⟩
  | ok reports =>
    have hok := outcome_pass_eq_ok.1 h
    by_cases hregular : ∀ r ∈ reports, r.isSingular = false
    · exact .inr (.inl ⟨reports, hok, hregular⟩)
    · have hsingular : ∃ r ∈ reports, r.isSingular = true := by simpa using hregular
      exact .inr (.inr ⟨reports, hok, hsingular⟩)

/-- A singular pass is not a regular one. -/
theorem IsSingularPass.not_regular {reports : List Report}
    (h : IsSingularPass f settings seeds reports) :
    ¬ ∀ r ∈ reports, r.isSingular = false := by
  intro hregular
  obtain ⟨r, hr, hsingular⟩ := h.singular
  exact absurd hsingular (by simp [hregular r hr])

/-- A pass has one report for every seed. -/
theorem length_reports {reports : List Report}
    (h : Run.Succeed (calls f settings seeds) reports) : reports.length = seeds.length := by
  rw [h.length_eq]
  exact List.length_mapIdx

/-- A pass has nothing to say about restarts. -/
theorem isSilent_pass (f : Float → Float) (settings : MullerSettings) (seeds : List Float) :
    (pass f settings seeds).IsSilent := by
  rw [pass_eq_inOrder]
  -- no refinement has anything to say about restarts, and so neither has their sequence
  apply Run.isSilent_inOrder
  intro x hx
  obtain ⟨i, hi, rfl⟩ := List.exists_of_mem_mapIdx hx
  exact isSilent_refine ..

/-- So the transcript of a pass contains no restart. -/
theorem restarts_pass (f : Float → Float) (settings : MullerSettings) (seeds : List Float) :
    Transcript.restarts (pass f settings seeds).transcript = [] :=
  List.filterMap_eq_nil_iff.2 (isSilent_pass f settings seeds).announces_none

/-- And leaving restarts out does not change it. -/
theorem withoutRestarts_pass (f : Float → Float) (settings : MullerSettings)
    (seeds : List Float) :
    Transcript.withoutRestarts (pass f settings seeds).transcript =
      (pass f settings seeds).transcript := by
  apply List.filter_eq_self.2
  intro e he
  rw [(isSilent_pass f settings seeds).announces_none e he]
  rfl

/-! ## The course of a batch -/

/-- What a batch comes to when its last pass, over these seeds, follows `done` restarts. -/
inductive Concludes (f : Float → Float) (settings : MullerSettings) (seeds : List Float)
    (done : Nat) : Batch → Prop where
  /-- No system was singular. -/
  | settled {reports : List Report} (hok : Run.Succeed (calls f settings seeds) reports)
      (hregular : ∀ r ∈ reports, r.isSingular = false) :
      Concludes f settings seeds done ⟨.ok reports, done⟩
  /-- A seed failed. -/
  | failed {e : RefineError} (h : (pass f settings seeds).outcome = .error e) :
      Concludes f settings seeds done ⟨.error e, done⟩
  /-- Some system was singular, but no restart was left. -/
  | exhausted {reports : List Report} (h : IsSingularPass f settings seeds reports)
      (hdone : done = settings.restarts) :
      Concludes f settings seeds done ⟨.error (.restartsExhausted done), done⟩

/-- How a batch goes from a pass over these seeds on, which follows `done` restarts: the seeds
    of the passes after it, and what became of the batch. -/
inductive Course (f : Float → Float) (settings : MullerSettings) :
    (done : Nat) → (seeds : List Float) → (later : List (List Float)) → Traced Event Batch →
      Prop where
  /-- The pass is the last one. -/
  | last {done : Nat} {seeds : List Float} {b : Batch}
      (h : Concludes f settings seeds done b) :
      Course f settings done seeds [] ⟨(pass f settings seeds).transcript, b⟩
  /-- The batch starts again from the roots that the pass has reached. -/
  | again {done : Nat} {seeds : List Float} {reports : List Report} {later : List (List Float)}
      {t : Transcript} {b : Batch} (h : IsSingularPass f settings seeds reports)
      (hlt : done < settings.restarts)
      (hlater : Course f settings (done + 1) (reports.map (·.root.x)) later ⟨t, b⟩) :
      Course f settings done seeds (reports.map (·.root.x) :: later)
        ⟨(pass f settings seeds).transcript ++
          .note (.restart (reports.countP (·.isSingular)) (done + 1) settings.restarts) :: t, b⟩

/-! ### From the batch to its course -/

/-- A pass that fails is the end of the batch. -/
theorem batch_of_error {e : RefineError} (h : (pass f settings seeds).outcome = .error e)
    (left done : Nat) :
    batch f settings left done seeds =
      ⟨(pass f settings seeds).transcript, .error e, done⟩ := by
  unfold batch
  apply Traced.ext
  · simp [h]
  · simp [h]

/-- A pass without a singular system is the end as well, with its reports. -/
theorem batch_of_regular {reports : List Report}
    (hok : Run.Succeed (calls f settings seeds) reports)
    (hregular : ∀ r ∈ reports, r.isSingular = false) (left done : Nat) :
    batch f settings left done seeds =
      ⟨(pass f settings seeds).transcript, .ok reports, done⟩ := by
  unfold batch
  apply Traced.ext
  · simp [outcome_pass_eq_ok.2 hok, if_pos hregular]
  · simp [outcome_pass_eq_ok.2 hok, if_pos hregular]

/-- A singular system is the end when no restart is left. -/
theorem IsSingularPass.batch_zero {reports : List Report}
    (h : IsSingularPass f settings seeds reports) (done : Nat) :
    batch f settings 0 done seeds =
      ⟨(pass f settings seeds).transcript, .error (.restartsExhausted done), done⟩ := by
  unfold batch
  apply Traced.ext
  · simp [outcome_pass_eq_ok.2 h.succeed, if_neg h.not_regular]
  · simp [outcome_pass_eq_ok.2 h.succeed, if_neg h.not_regular]

/-- It makes the batch start again when one is left. -/
theorem IsSingularPass.batch_succ {reports : List Report}
    (h : IsSingularPass f settings seeds reports) (left done : Nat) :
    let rest := batch f settings left (done + 1) (reports.map (·.root.x))
    batch f settings (left + 1) done seeds =
      ⟨(pass f settings seeds).transcript ++
        .note (.restart (reports.countP (·.isSingular)) (done + 1) settings.restarts) ::
          rest.transcript, rest.value⟩ := by
  intro rest
  unfold batch
  apply Traced.ext
  · simp [outcome_pass_eq_ok.2 h.succeed, if_neg h.not_regular, rest]
  · simp [outcome_pass_eq_ok.2 h.succeed, if_neg h.not_regular, rest]

/-- A pass without a singular system is the last one, however many restarts are left. -/
theorem course_of_not_singular (h : ¬ ∃ reports, IsSingularPass f settings seeds reports)
    (left done : Nat) : Course f settings done seeds [] (batch f settings left done seeds) := by
  rcases pass_cases f settings seeds with ⟨e, he⟩ | ⟨reports, hok, hregular⟩ | hsing
  · rw [batch_of_error he]
    exact .last (.failed he)
  · rw [batch_of_regular hok hregular]
    exact .last (.settled hok hregular)
  · exact absurd hsing h

/-- Every batch has a course. -/
theorem exists_course (f : Float → Float) (settings : MullerSettings) {left done : Nat}
    (hleft : done + left = settings.restarts) (seeds : List Float) :
    ∃ later, Course f settings done seeds later (batch f settings left done seeds) := by
  -- Induction on the restarts left, of which every singular pass uses up one.
  induction left generalizing done seeds with
  | zero =>
    by_cases hsing : ∃ reports, IsSingularPass f settings seeds reports
    · obtain ⟨reports, hsing⟩ := hsing
      rw [hsing.batch_zero]
      exact ⟨[], .last (.exhausted hsing hleft)⟩
    · exact ⟨[], course_of_not_singular hsing 0 done⟩
  | succ left ih =>
    by_cases hsing : ∃ reports, IsSingularPass f settings seeds reports
    · obtain ⟨reports, hsing⟩ := hsing
      have hlt : done < settings.restarts := by omega
      have hleft' : done + 1 + left = settings.restarts := by omega
      obtain ⟨later, hlater⟩ := ih hleft' (reports.map (·.root.x))
      rw [hsing.batch_succ]
      exact ⟨_, .again hsing hlt hlater⟩
    · exact ⟨[], course_of_not_singular hsing (left + 1) done⟩

/-! ### From the course to the batch -/

namespace Concludes

variable {done : Nat} {b : Batch}

/-- A batch that answers has had a last pass without a singular system. -/
theorem of_ok {reports : List Report} (h : Concludes f settings seeds done b)
    (hout : b.outcome = .ok reports) :
    Run.Succeed (calls f settings seeds) reports ∧ ∀ r ∈ reports, r.isSingular = false := by
  cases h with
  | settled hok hregular =>
    cases hout
    exact ⟨hok, hregular⟩
  | failed _ => cases hout
  | exhausted _ _ => cases hout

/-- Only the batch itself fails because no restart is left. -/
theorem of_restartsExhausted {n : Nat} (h : Concludes f settings seeds done b)
    (hout : b.outcome = .error (.restartsExhausted n)) :
    n = done ∧ n = settings.restarts ∧ ∃ reports, IsSingularPass f settings seeds reports := by
  cases h with
  | settled _ _ => cases hout
  | failed h =>
    -- this error does not come from a seed
    cases hout
    exact absurd h ((isSilent_pass f settings seeds).not_exhausted n)
  | exhausted h hdone =>
    cases hout
    exact ⟨rfl, hdone, _, h⟩

/-- Any other error is that of the first seed of the last pass that failed. -/
theorem of_error {e : RefineError} (h : Concludes f settings seeds done b)
    (hout : b.outcome = .error e) (he : ∀ n, e ≠ .restartsExhausted n) :
    ∃ i, Run.FailFirst (calls f settings seeds) i e := by
  cases h with
  | settled _ _ => cases hout
  | failed h =>
    cases hout
    rw [pass_eq_inOrder] at h
    exact Run.outcome_inOrder_eq_error.1 h
  | exhausted _ _ =>
    cases hout
    exact absurd rfl (he done)

end Concludes

namespace Course

variable {done : Nat} {later : List (List Float)} {b : Traced Event Batch}

/-- A batch starts again once for every pass after the first. -/
theorem restarts_eq (h : Course f settings done seeds later b) :
    b.value.restarts = done + later.length := by
  -- induction on the course, every later pass being one more restart
  induction h with
  | last h => cases h <;> rfl
  | @again done seeds reports later t b _ _ _ ih =>
    have hcount : b.restarts = done + 1 + later.length := ih
    show b.restarts = done + (later.length + 1)
    omega

/-- Every pass but the last hands the roots it has reached on to the next. -/
theorem isChain (h : Course f settings done seeds later b) :
    (seeds :: later).IsChain (StartsAgain f settings) := by
  -- a pass that is not the last hands over its roots by definition
  induction h with
  | last => exact .singleton _
  | again hsing _ _ ih => exact .cons_cons ⟨_, hsing, rfl⟩ ih

/-- Apart from what is announced, what happens are the passes. -/
theorem withoutRestarts_transcript (h : Course f settings done seeds later b) :
    Transcript.withoutRestarts b.transcript =
      (seeds :: later).flatMap fun seeds => (pass f settings seeds).transcript := by
  induction h with
  | @last done seeds b _ => simp [withoutRestarts_pass]
  | again _ _ _ ih =>
    -- the announcement falls away, and the pass before it is as it was
    rw [Transcript.withoutRestarts_append, Transcript.withoutRestarts_cons_restart, ih,
      withoutRestarts_pass]
    rfl

/-- What is announced are the restarts, by their numbers. -/
theorem restarts_transcript (h : Course f settings done seeds later b) :
    Transcript.restarts b.transcript =
      (List.range' (done + 1) later.length).map fun number => (number, settings.restarts) := by
  induction h with
  | last => exact restarts_pass ..
  | again _ _ _ ih =>
    -- the pass announces nothing, and then comes the restart with the next number
    rw [Transcript.restarts_append, Transcript.restarts_cons_restart, ih, restarts_pass]
    rfl

/-- What a batch comes to is decided by its last pass. -/
theorem concludes (h : Course f settings done seeds later b) :
    ∃ last, (seeds :: later).getLast? = some last ∧
      Concludes f settings last b.value.restarts b.value := by
  -- induction on the course, towards its last pass
  induction h with
  | @last done seeds b h =>
    refine ⟨seeds, rfl, ?_⟩
    cases h with
    | settled hok hregular => exact .settled hok hregular
    | failed h => exact .failed h
    | exhausted h hdone => exact .exhausted h hdone
  | again _ _ _ ih =>
    obtain ⟨last, hlast, hconcludes⟩ := ih
    exact ⟨last, by rw [List.getLast?_cons_cons, hlast], hconcludes⟩

/-- The reports of a batch are as many as its seeds. -/
theorem length_reports (h : Course f settings done seeds later b) {reports : List Report}
    (hout : b.value.outcome = .ok reports) : reports.length = seeds.length := by
  induction h with
  | last h => exact Muller.length_reports (h.of_ok hout).1
  -- the next pass has as many seeds as this one has roots
  | again hsing _ _ ih =>
    rw [ih hout, List.length_map, Muller.length_reports hsing.succeed]

/-- A batch that runs out of restarts has met a singular system in every pass. -/
theorem exists_isSingularPass (h : Course f settings done seeds later b) {n : Nat}
    (hout : b.value.outcome = .error (.restartsExhausted n)) :
    ∀ s ∈ seeds :: later, ∃ reports, IsSingularPass f settings s reports := by
  induction h with
  | last h =>
    obtain ⟨-, -, hsing⟩ := h.of_restartsExhausted hout
    exact List.forall_mem_singleton.2 hsing
  | again hsing _ _ ih => exact List.forall_mem_cons.2 ⟨⟨_, hsing⟩, ih hout⟩

end Course

/-- The restarts of a batch are bounded, can be observed and leave no singular report, for
    every function, all settings and all seeds.  A batch makes one pass more than it starts
    again, and it starts again no more often than it may.  The first pass is over the seeds of
    the batch, and each of the others over the roots of the one before, which were reported
    along with a singular system; every report is that of a refinement from its seed and two
    offsets counted from the beginning of their sequence.  Apart from the announcements of
    restarts, which are numbered from one, the passes are all that happens.

    A batch that answers has one report for every seed, those of its last pass, and none of
    them is singular.  A batch that fails because no restart is left has used up all of them
    and has met a singular system in every pass.  Every other failure is that of the first
    seed of the last pass that failed. -/
theorem refineAll_passes (f : Float → Float) (settings : MullerSettings) (xs : List Float) :
    let b := (solver f settings).refineAll xs
    ∃ (passes : List (List Float)) (last : List Float),
      passes.head? = some xs ∧
      passes.getLast? = some last ∧
      passes.IsChain (StartsAgain f settings) ∧
      passes.length = b.value.restarts + 1 ∧
      b.value.restarts ≤ settings.restarts ∧
      Transcript.withoutRestarts b.transcript =
        passes.flatMap (fun seeds => (Run.inOrder (calls f settings seeds)).transcript) ∧
      Transcript.restarts b.transcript =
        (List.range' 1 b.value.restarts).map (fun number => (number, settings.restarts)) ∧
      (∀ reports, b.value.outcome = .ok reports →
        Run.Succeed (calls f settings last) reports ∧ reports.length = xs.length ∧
          ∀ r ∈ reports, r.isSingular = false) ∧
      (∀ n, b.value.outcome = .error (.restartsExhausted n) →
        n = b.value.restarts ∧ n = settings.restarts ∧
          ∀ seeds ∈ passes, ∃ reports, IsSingularPass f settings seeds reports) ∧
      ∀ e, b.value.outcome = .error e → (∀ n, e ≠ .restartsExhausted n) →
        ∃ i, Run.FailFirst (calls f settings last) i e := by
  intro b
  -- everything is read off the course of the batch
  obtain ⟨later, hcourse⟩ := exists_course f settings (Nat.zero_add _) xs
  change Course f settings 0 xs later b at hcourse
  obtain ⟨last, hlast, hconcludes⟩ := hcourse.concludes
  have hcount : b.value.restarts = later.length := by
    rw [hcourse.restarts_eq, Nat.zero_add]
  have hbound := restarts_batch_le f settings settings.restarts 0 xs
  rw [Nat.zero_add] at hbound
  have hhappened := hcourse.withoutRestarts_transcript
  simp only [pass_eq_inOrder] at hhappened
  have hannounced := hcourse.restarts_transcript
  rw [← hcount] at hannounced
  refine ⟨xs :: later, last, rfl, hlast, hcourse.isChain, by rw [hcount, List.length_cons],
    hbound, hhappened, hannounced, ?_, ?_, ?_⟩
  · intro reports hout
    obtain ⟨hok, hregular⟩ := hconcludes.of_ok hout
    exact ⟨hok, hcourse.length_reports hout, hregular⟩
  · intro n hout
    obtain ⟨hdone, hlimit, -⟩ := hconcludes.of_restartsExhausted hout
    exact ⟨hdone, hlimit, hcourse.exists_isSingularPass hout⟩
  · intro e hout he
    exact hconcludes.of_error hout he

/-- Where two of the three starts coincide no system is regular, so a batch that may start
    again twice does so. -/
example :
    Transcript.restarts ((solver (fun x => x * x + 1)
      { offsets := ⟨.alternating 0.5 0.5, by decide⟩, restarts := 2 }).refineAll [0]).transcript =
      [(1, 2), (2, 2)] := by
  decide +kernel

end Muller

end ScalarRoots
