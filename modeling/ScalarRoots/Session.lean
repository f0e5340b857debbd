import ScalarRoots.Bracketing
import ScalarRoots.Refinement.Batch

/-! # Sessions

A `Session` is the memory of a solver: the intervals attached to it, the
approximations found in them and the reports of the last refinement.  Commands
change it.  A command that computes something replaces what was there before, and
clears it when the computation fails.

Main statements:

* `perform_attach`   attaching intervals changes nothing else
* `after_cons`       commands are carried out one after the other
-/

namespace ScalarRoots

/-- What a solver remembers; at first nothing. -/
structure Session where
  intervals : Option (List Span) := none
  approximations : Option (List Approximation) := none
  reports : Option (List Report) := none
  /-- How often the last batch of seeds started again. -/
  restarts : Nat := 0

/-- Why a command fails. -/
inductive SessionError where
  /-- There is nothing to bracket. -/
  | intervalsNotSet
  /-- There are no approximations to read or to refine. -/
  | approximationsNotComputed
  /-- There are no reports to read. -/
  | rootsNotComputed
  | bracketing (e : BracketError)
  | refinement (e : RefineError)
deriving DecidableEq, Repr

/-- The text of the error. -/
def SessionError.message : SessionError → String
  | intervalsNotSet => "intervals must be attached before computing approximations"
  | approximationsNotComputed =>
    "approximations must be computed before they are read or used as seeds"
  | rootsNotComputed => "roots must be computed before they are read"
  | bracketing e => e.message
  | refinement e => e.message

/-- What to refine. -/
inductive Seeds where
  /-- The locations of the approximations. -/
  | approximations
  | explicit (seeds : List Float)
deriving DecidableEq, Repr

namespace Session

instance : Inhabited Session := ⟨{}⟩

/-- The approximations, if they have been computed. -/
def readApproximations (s : Session) : Except SessionError (List Approximation) :=
  match s.approximations with
  | some found => .ok found
  | none => .error .approximationsNotComputed

/-- The reports, if roots have been computed. -/
def readReports (s : Session) : Except SessionError (List Report) :=
  match s.reports with
  | some reports => .ok reports
  | none => .error .rootsNotComputed

/-- The roots, one for every seed and in the order of the seeds. -/
def readRoots (s : Session) : Except SessionError (List Float) :=
  (·.map (·.root.x)) <$> s.readReports

/-- Attaches intervals.  They are not looked at before they are used. -/
def attach (intervals : List Span) (s : Session) : Session :=
  { s with intervals := some intervals }

/-- Brackets the roots of `f` in the attached intervals. -/
def findApproximations (f : Float → Float) (settings : BracketSettings) (s : Session) :
    Traced Event (Session × Except SessionError (List Approximation)) := do
  match s.intervals with
  -- what was found before is forgotten, whether the new search succeeds or not
  | none => return ({ s with approximations := none }, .error .intervalsNotSet)
  | some intervals =>
    match ← (ScalarRoots.findApproximations f settings intervals).toTraced with
    | .error e => return ({ s with approximations := none }, .error (.bracketing e))
    | .ok found => return ({ s with approximations := some found }, .ok found)

/-- The seeds themselves, unless they are approximations that are not there. -/
def resolve (s : Session) : Seeds → Except SessionError (List Float)
  | .approximations => (·.map (·.location)) <$> s.readApproximations
  | .explicit seeds => .ok seeds

/-- Refines seeds to roots.  Nothing changes if there are no seeds to start from. -/
def refineSeeds (solver : Solver) (seeds : Seeds) (s : Session) :
    Traced Event (Session × Except SessionError (List Report)) := do
  match s.resolve seeds with
  -- without seeds nothing is touched, the old reports and restarts included
  | .error e => return (s, .error e)
  | .ok xs =>
    let batch ← solver.refineAll xs
    match batch.outcome with
    | .error e =>
      return ({ s with reports := none, restarts := batch.restarts }, .error (.refinement e))
    | .ok reports =>
      log (.refined solver.algorithm reports.length)
      return ({ s with reports := some reports, restarts := batch.restarts }, .ok reports)

end Session

/-- What a session can be asked to do. -/
inductive Command where
  | attach (intervals : List Span)
  | findApproximations (settings : BracketSettings)
  | refineSeeds (seeds : Seeds)

/-- What a command answers when it succeeds. -/
inductive Answer where
  | attached
  | approximations (found : List Approximation)
  | reports (reports : List Report)

namespace Session

/-- Carries out a command: the new session and the answer. -/
def perform (solver : Solver) (s : Session) :
    Command → Traced Event (Session × Except SessionError Answer)
  | .attach intervals => pure (s.attach intervals, .ok .attached)
  | .findApproximations settings =>
    (fun (s, found) => (s, found.map .approximations)) <$>
      s.findApproximations solver.target settings
  | .refineSeeds seeds =>
    (fun (s, reports) => (s, reports.map .reports)) <$> s.refineSeeds solver seeds

/-- The session after some commands. -/
def after (solver : Solver) (s : Session) (commands : List Command) : Session :=
  commands.foldl (fun s c => (s.perform solver c).value.1) s

@[simp] theorem after_nil (solver : Solver) (s : Session) : s.after solver [] = s := rfl

/-- Commands are carried out one after the other. -/
@[simp] theorem after_cons (solver : Solver) (s : Session) (c : Command)
    (commands : List Command) :
    s.after solver (c :: commands) = (s.perform solver c).value.1.after solver commands := rfl

/-- Attaching intervals changes nothing else, and does not fail. -/
@[simp] theorem perform_attach (solver : Solver) (s : Session) (intervals : List Span) :
    (s.perform solver (.attach intervals)).value =
      ({ s with intervals := some intervals }, .ok .attached) := rfl

end Session

end ScalarRoots
