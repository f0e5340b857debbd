/-! # Values with a transcript

`Traced ω α` is a value of type `α` together with the list of entries of type `ω`
written on the way to it, oldest first.  A computation that has something to
report besides its result (which points it looked at, what it wants logged)
returns a `Traced` value, so what it reported is an ordinary list that can be
printed, filtered, counted and reasoned about.

Main statements, one per operation and side:

* `value_pure`, `transcript_pure`   `pure` writes nothing
* `value_bind`, `transcript_bind`   `>>=` feeds the value on and appends the transcripts
* `value_map`, `transcript_map`     `<$>` leaves the transcript alone
* `value_listen`, `transcript_listen`   `listen` shows a computation its own transcript
-/

namespace ScalarRoots

/-- A value and the entries written while it was computed, oldest first. -/
structure Traced (ω α : Type) where
  transcript : List ω
  value : α

namespace Traced

variable {ω α β : Type}

/-- Two traced values are equal if what they write and what they give is. -/
@[ext] theorem ext {x y : Traced ω α} (ht : x.transcript = y.transcript)
    (hv : x.value = y.value) : x = y := by
  cases x; cases y; cases ht; cases hv; rfl

instance : Monad (Traced ω) where
  pure a := ⟨[], a⟩
  bind x f :=
    let y := f x.value
    ⟨x.transcript ++ y.transcript, y.value⟩

/-- Writes a single entry. -/
def write (entry : ω) : Traced ω Unit := ⟨[entry], ()⟩

/-- The value paired with the transcript that led to it. -/
def listen (x : Traced ω α) : Traced ω (α × List ω) := ⟨x.transcript, x.value, x.transcript⟩

@[simp] theorem value_pure (a : α) : (pure a : Traced ω α).value = a := rfl

@[simp] theorem transcript_pure (a : α) : (pure a : Traced ω α).transcript = [] := rfl

/-- The first value decides what is computed next. -/
@[simp] theorem value_bind (x : Traced ω α) (f : α → Traced ω β) :
    (x >>= f).value = (f x.value).value := rfl

/-- What the second part writes comes after what the first has written. -/
@[simp] theorem transcript_bind (x : Traced ω α) (f : α → Traced ω β) :
    (x >>= f).transcript = x.transcript ++ (f x.value).transcript := rfl

@[simp] theorem value_map (f : α → β) (x : Traced ω α) : (f <$> x).value = f x.value := rfl

/-- Going on with the value writes nothing. -/
@[simp] theorem transcript_map (f : α → β) (x : Traced ω α) :
    (f <$> x).transcript = x.transcript := List.append_nil _

@[simp] theorem value_write (entry : ω) : (write entry).value = () := rfl

@[simp] theorem transcript_write (entry : ω) : (write entry).transcript = [entry] := rfl

/-- A computation is shown what it has written itself. -/
@[simp] theorem value_listen (x : Traced ω α) : x.listen.value = (x.value, x.transcript) := rfl

/-- To listen is not to write. -/
@[simp] theorem transcript_listen (x : Traced ω α) : x.listen.transcript = x.transcript := rfl

instance : LawfulMonad (Traced ω) := LawfulMonad.mk' (Traced ω)
  (fun x => Traced.ext (List.append_nil _) rfl)
  (fun _ _ => rfl)
  (fun _ _ _ => Traced.ext (List.append_assoc ..) rfl)

end Traced

end ScalarRoots
