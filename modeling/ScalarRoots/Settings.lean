import ScalarRoots.Decimal.Layout

/-! # Settings that every method shares

A tolerance is finite and positive and a requested number of iterations is
positive.  Both facts are part of the types, so settings that exist are valid;
the functions that build them from plain numbers answer with a `SettingError`
for the others.

Main statements:

* `Tolerance.ofFloat_eq_ok`, `Count.ofNat_eq_ok`   what is accepted is kept unchanged
* `Tolerance.ofFloat_eq_error`   exactly the finite positive numbers are accepted
* `Tolerance.meets_eq_true`   a number meets a tolerance when its magnitude is below it
-/

namespace ScalarRoots

/-- Why a setting is refused. -/
inductive SettingError where
  /-- A tolerance that is not finite and positive. -/
  | invalidTolerance (got : Float)
  /-- No iterations at all. -/
  | noIterations
  /-- No rounds of bisection at all. -/
  | noRounds
  /-- More decimal places than a location can be rounded to. -/
  | tooManyDigits (got limit : Nat)
  /-- Offsets that could leave a seed where it is. -/
  | invalidOffsets
deriving DecidableEq, Repr

/-- The text of the error. -/
def SettingError.message : SettingError → String
  | invalidTolerance got =>
    s!"invalid `epsilon` tolerance: must be finite and > 0. got {Decimal.plain.text got}"
  | noIterations => "invalid max_iter: must be >= 1. got max_iter=0"
  | noRounds => "invalid iterations: must be >= 1. got iterations=0"
  | tooManyDigits got limit => s!"invalid digits: must be <= {limit}. got digits={got}"
  | invalidOffsets => "invalid seed offsets: offsets must be finite and non-zero"

/-- A finite positive bound on a residual or a step. -/
structure Tolerance where
  bound : Float
  finite : bound.isFinite = true
  pos : 0 < bound

namespace Tolerance

/-- One part in a hundred thousand. -/
def default : Tolerance := ⟨1e-5, by decide, by decide⟩

instance : Inhabited Tolerance := ⟨default⟩

/-- Accepts the finite positive numbers. -/
def ofFloat (x : Float) : Except SettingError Tolerance :=
  if h : x.isFinite = true ∧ 0 < x then
    .ok ⟨x, h.1, h.2⟩
  else
    .error (.invalidTolerance x)

/-- Whether a number is smaller than the tolerance in magnitude. -/
def meets (t : Tolerance) (x : Float) : Bool := x.abs < t.bound

/-- What is accepted is kept unchanged. -/
theorem ofFloat_eq_ok {x : Float} {t : Tolerance} (h : ofFloat x = .ok t) : t.bound = x := by
  unfold ofFloat at h
  split at h
  · cases h; rfl
  · cases h

/-- All numbers but the finite positive ones are refused, and the error shows them. -/
theorem ofFloat_eq_error {x : Float} {e : SettingError} :
    ofFloat x = .error e ↔ e = .invalidTolerance x ∧ ¬ (x.isFinite = true ∧ 0 < x) := by
  unfold ofFloat
  split
  -- an accepted number is no error
  next h => exact ⟨nofun, fun he => absurd h he.2⟩
  next h =>
    constructor
    · intro he
      cases he
      exact ⟨rfl, h⟩
    · rintro ⟨rfl, -⟩
      rfl

/-- A number meets a tolerance when its magnitude is below it, and not when it is equal. -/
theorem meets_eq_true {t : Tolerance} {x : Float} : t.meets x = true ↔ x.abs < t.bound :=
  decide_eq_true_iff

end Tolerance

/-- A positive number of iterations or rounds. -/
structure Count where
  toNat : Nat
  pos : 0 < toNat

namespace Count

/-- Accepts the positive numbers; zero is answered with `error`. -/
def ofNat (error : SettingError) (n : Nat) : Except SettingError Count :=
  if h : 0 < n then .ok ⟨n, h⟩ else .error error

/-- What is accepted is kept unchanged. -/
theorem ofNat_eq_ok {error : SettingError} {n : Nat} {c : Count} (h : ofNat error n = .ok c) :
    c.toNat = n := by
  unfold ofNat at h
  split at h
  · cases h; rfl
  · cases h

end Count

/-- How precise a refinement should be and how long it may take. -/
structure Settings where
  tolerance : Tolerance := .default
  /-- The iterations allowed; the method's own default if absent. -/
  iterations : Option Count := none

namespace Settings

/-- Asks for a tolerance, finite and positive. -/
def setTolerance (s : Settings) (x : Float) : Except SettingError Settings :=
  return { s with tolerance := ← Tolerance.ofFloat x }

/-- Allows a number of iterations, at least one. -/
def setIterations (s : Settings) (n : Nat) : Except SettingError Settings :=
  return { s with iterations := some (← Count.ofNat .noIterations n) }

end Settings

end ScalarRoots
