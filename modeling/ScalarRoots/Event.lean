import ScalarRoots.Note
import ScalarRoots.Traced

/-! # What happens during a computation

Every evaluation of the target function or of one of its derivatives is a
`Probe`.  The transcript of a computation interleaves its probes with its log
records, in the order in which they happened, so that how often and where a
function was evaluated can be read off.

Main statements:

* `probes_append`, `notes_append`   the probes and the records of a transcript
  are those of its parts
* `value_probe`, `transcript_probe`   evaluating at a point gives the value and is
  recorded once
-/

namespace ScalarRoots

/-- The functions that a method evaluates. -/
inductive Quantity where
  /-- The target function. -/
  | value
  /-- Its first derivative. -/
  | slope
  /-- Its second derivative. -/
  | curvature
deriving DecidableEq, Repr

/-- One evaluation: which function, where, and what came out. -/
structure Probe where
  quantity : Quantity
  location : Float
  result : Float
deriving Repr

/-- An evaluation or a log record. -/
inductive Event where
  | probe (p : Probe)
  | note (n : Note)
deriving Repr

/-- A transcript of probes and log records. -/
abbrev Transcript := List Event

namespace Transcript

/-- The evaluations, in order. -/
def probes (t : Transcript) : List Probe :=
  t.filterMap fun
    | .probe p => some p
    | .note _ => none

/-- The log records, in order. -/
def notes (t : Transcript) : List Note :=
  t.filterMap fun
    | .probe _ => none
    | .note n => some n

@[simp] theorem probes_nil : probes [] = [] := rfl

@[simp] theorem notes_nil : notes [] = [] := rfl

/-- The probes of a transcript are those of its parts. -/
@[simp] theorem probes_append (s t : Transcript) : probes (s ++ t) = probes s ++ probes t :=
  List.filterMap_append

/-- So are its records. -/
@[simp] theorem notes_append (s t : Transcript) : notes (s ++ t) = notes s ++ notes t :=
  List.filterMap_append

@[simp] theorem probes_cons_probe (p : Probe) (t : Transcript) :
    probes (.probe p :: t) = p :: probes t := rfl

/-- A record is no probe. -/
@[simp] theorem probes_cons_note (n : Note) (t : Transcript) :
    probes (.note n :: t) = probes t := rfl

/-- A probe is no record. -/
@[simp] theorem notes_cons_probe (p : Probe) (t : Transcript) :
    notes (.probe p :: t) = notes t := rfl

@[simp] theorem notes_cons_note (n : Note) (t : Transcript) :
    notes (.note n :: t) = n :: notes t := rfl

end Transcript

/-- Evaluates `g`, which is the given quantity, at `x`. -/
def probe (quantity : Quantity) (g : Float → Float) (x : Float) : Traced Event Float :=
  let y := g x
  ⟨[.probe ⟨quantity, x, y⟩], y⟩

/-- Writes a log record. -/
def log (n : Note) : Traced Event Unit := .write (.note n)

/-- Probing gives the value of the function. -/
@[simp] theorem value_probe (q : Quantity) (g : Float → Float) (x : Float) :
    (probe q g x).value = g x := rfl

/-- It is recorded once, with what came out. -/
@[simp] theorem transcript_probe (q : Quantity) (g : Float → Float) (x : Float) :
    (probe q g x).transcript = [.probe ⟨q, x, g x⟩] := rfl

@[simp] theorem value_log (n : Note) : (log n).value = () := rfl

/-- A record is written once. -/
@[simp] theorem transcript_log (n : Note) : (log n).transcript = [.note n] := rfl

end ScalarRoots
