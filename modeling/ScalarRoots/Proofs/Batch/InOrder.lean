import Mathlib.Algebra.GroupWithZero.Nat
import ScalarRoots.Run

/-!
# Calls made in order

A batch makes its calls one after the other and stops at the first that fails.  Either every
call succeeds, and then their values are the values of the batch, in the same order; or some
call is the first to fail, and then its error is that of the batch and no later call is made.

## Key results

- `Run.succeed_or_failFirst`: one of the two is always the case
- `Run.inOrder_of_succeed` / `Run.inOrder_of_failFirst`: what the calls then come to, and what
  happens on the way
- `Run.outcome_inOrder_eq_ok` / `Run.outcome_inOrder_eq_error`: the same, told from the outcome
-/

namespace ScalarRoots.Run

variable {ε α : Type}

/-- Makes calls one after the other, until one fails. -/
def inOrder (calls : List (Run ε α)) : Run ε (List α) := calls.mapM id

/-- Every call succeeds, and these are their values. -/
def Succeed (calls : List (Run ε α)) (values : List α) : Prop :=
  calls.map (·.outcome) = values.map .ok

/-- The call number `i` fails with the error `e`, and every call before it succeeds. -/
def FailFirst (calls : List (Run ε α)) (i : Nat) (e : ε) : Prop :=
  calls[i]?.map (·.outcome) = some (.error e) ∧
    ∀ j < i, ∃ a, calls[j]?.map (·.outcome) = some (.ok a)

/-- A loop over arguments makes the calls for these arguments in order. -/
theorem mapM_eq_inOrder {β : Type} (g : β → Run ε α) (args : List β) :
    args.mapM g = inOrder (args.map g) := by
  unfold inOrder
  rw [List.mapM_map]
  rfl

/-! ## The first call and the others -/

/-- After a call that succeeds, the others are made. -/
theorem inOrder_cons_of_ok {x : Run ε α} {a : α} (h : x.outcome = .ok a)
    (rest : List (Run ε α)) :
    inOrder (x :: rest) =
      ⟨x.transcript ++ (inOrder rest).transcript, x.evals + (inOrder rest).evals,
        (inOrder rest).outcome.map (a :: ·)⟩ := by
  unfold inOrder
  rw [List.mapM_cons, id, bind_of_ok h]
  simp [Except.map]

/-- After a call that fails, no other is made. -/
theorem inOrder_cons_of_error {x : Run ε α} {e : ε} (h : x.outcome = .error e)
    (rest : List (Run ε α)) : inOrder (x :: rest) = ⟨x.transcript, x.evals, .error e⟩ := by
  unfold inOrder
  rw [List.mapM_cons, id, bind_of_error h]

/-- Without calls there are no values. -/
theorem succeed_nil {values : List α} : Succeed ([] : List (Run ε α)) values ↔ values = [] := by
  simp [Succeed, eq_comm]

/-- All calls succeed when the first one does and the others do. -/
theorem succeed_cons {x : Run ε α} {rest : List (Run ε α)} {values : List α} :
    Succeed (x :: rest) values ↔
      ∃ a tail, values = a :: tail ∧ x.outcome = .ok a ∧ Succeed rest tail := by
  unfold Succeed
  constructor
  · intro h
    obtain ⟨a, tail, rfl, ha, hrest⟩ := List.map_eq_cons_iff.1 h.symm
    exact ⟨a, tail, rfl, ha.symm, hrest.symm⟩
  · intro h
    obtain ⟨a, tail, rfl, ha, hrest⟩ := h
    rw [List.map_cons, List.map_cons, ha, hrest]

/-- The first call is the first to fail exactly when it fails. -/
theorem failFirst_cons_zero {x : Run ε α} {rest : List (Run ε α)} {e : ε} :
    FailFirst (x :: rest) 0 e ↔ x.outcome = .error e := by
  simp [FailFirst]

/-- A later call is the first to fail when the first one succeeds and it comes first among the
    others. -/
theorem failFirst_cons_succ {x : Run ε α} {rest : List (Run ε α)} {i : Nat} {e : ε} :
    FailFirst (x :: rest) (i + 1) e ↔ (∃ a, x.outcome = .ok a) ∧ FailFirst rest i e := by
  unfold FailFirst
  constructor
  · intro h
    obtain ⟨hi, hbefore⟩ := h
    -- the call at the front is number zero, the others move up by one
    obtain ⟨a, ha⟩ := hbefore 0 (Nat.succ_pos i)
    exact ⟨⟨a, Option.some.inj ha⟩, hi, fun j hj => hbefore (j + 1) (Nat.succ_lt_succ hj)⟩
  · intro h
    obtain ⟨⟨a, ha⟩, hi, hbefore⟩ := h
    refine ⟨hi, fun j hj => ?_⟩
    cases j with
    | zero => exact ⟨a, congrArg some ha⟩
    | succ j => exact hbefore j (Nat.lt_of_succ_lt_succ hj)

/-! ## All calls -/

/-- Calls that succeed are all made, and their values are collected in order. -/
theorem inOrder_of_succeed {calls : List (Run ε α)} {values : List α}
    (h : Succeed calls values) :
    inOrder calls = ⟨calls.flatMap (·.transcript), (calls.map (·.evals)).sum, .ok values⟩ := by
  -- induction on the calls, each of which hands over to the next
  induction calls generalizing values with
  | nil =>
    obtain rfl := succeed_nil.1 h
    rfl
  | cons x rest ih =>
    obtain ⟨a, tail, rfl, ha, hrest⟩ := succeed_cons.1 h
    rw [inOrder_cons_of_ok ha, ih hrest]
    rfl

/-- The first call that fails is the last one made, and its error is that of them all. -/
theorem inOrder_of_failFirst {calls : List (Run ε α)} {i : Nat} {e : ε}
    (h : FailFirst calls i e) :
    inOrder calls = ⟨(calls.take (i + 1)).flatMap (·.transcript),
      ((calls.take (i + 1)).map (·.evals)).sum, .error e⟩ := by
  -- Induction on the calls, until the one that fails is at the front.
  induction calls generalizing i with
  | nil => exact nomatch h.1
  | cons x rest ih =>
    cases i with
    | zero => simp [inOrder_cons_of_error (failFirst_cons_zero.1 h)]
    | succ i =>
      obtain ⟨⟨a, ha⟩, hrest⟩ := failFirst_cons_succ.1 h
      rw [inOrder_cons_of_ok ha, ih hrest]
      rfl

/-- Calls all succeed, or one of them is the first to fail. -/
theorem succeed_or_failFirst (calls : List (Run ε α)) :
    (∃ values, Succeed calls values) ∨ ∃ i e, FailFirst calls i e := by
  induction calls with
  | nil => exact .inl ⟨[], rfl⟩
  | cons x rest ih =>
    -- if the first call succeeds, the others decide
    cases hx : x.outcome with
    | error e => exact .inr ⟨0, e, failFirst_cons_zero.2 hx⟩
    | ok a =>
      rcases ih with ⟨values, hvalues⟩ | ⟨i, e, hfail⟩
      · exact .inl ⟨a :: values, succeed_cons.2 ⟨a, values, rfl, hx, hvalues⟩⟩
      · exact .inr ⟨i + 1, e, failFirst_cons_succ.2 ⟨⟨a, hx⟩, hfail⟩⟩

/-- Calls made in order succeed exactly when each of them does. -/
theorem outcome_inOrder_eq_ok {calls : List (Run ε α)} {values : List α} :
    (inOrder calls).outcome = .ok values ↔ Succeed calls values := by
  constructor
  -- a call that fails would make them all fail
  · intro h
    rcases succeed_or_failFirst calls with ⟨values', hvalues⟩ | ⟨i, e, hfail⟩
    · rw [inOrder_of_succeed hvalues] at h
      cases h
      exact hvalues
    · rw [inOrder_of_failFirst hfail] at h
      cases h
  · intro h
    rw [inOrder_of_succeed h]

/-- They fail with the error of the first that fails. -/
theorem outcome_inOrder_eq_error {calls : List (Run ε α)} {e : ε} :
    (inOrder calls).outcome = .error e ↔ ∃ i, FailFirst calls i e := by
  constructor
  · intro h
    rcases succeed_or_failFirst calls with ⟨values, hvalues⟩ | ⟨i, e', hfail⟩
    · rw [inOrder_of_succeed hvalues] at h
      cases h
    · rw [inOrder_of_failFirst hfail] at h
      cases h
      exact ⟨i, hfail⟩
  · intro h
    obtain ⟨i, hfail⟩ := h
    rw [inOrder_of_failFirst hfail]

/-! ## Parts of a list of calls -/

/-- There is one value for each call. -/
theorem Succeed.length_eq {calls : List (Run ε α)} {values : List α}
    (h : Succeed calls values) : values.length = calls.length := by
  have hlength := congrArg List.length h
  simpa using hlength.symm

/-- The call that fails is one of them. -/
theorem FailFirst.lt_length {calls : List (Run ε α)} {i : Nat} {e : ε}
    (h : FailFirst calls i e) : i < calls.length := by
  obtain ⟨x, hx, -⟩ := Option.map_eq_some_iff.1 h.1
  exact (List.getElem?_eq_some_iff.1 hx).1

/-- The values of the first calls do not depend on those that come later. -/
theorem Succeed.take {calls : List (Run ε α)} {values : List α} (h : Succeed calls values)
    (n : Nat) : Succeed (calls.take n) (values.take n) := by
  unfold Succeed at h ⊢
  rw [List.map_take, List.map_take, h]

/-- Nor does the first failure depend on the calls that would come later. -/
theorem FailFirst.append {calls : List (Run ε α)} {i : Nat} {e : ε} (h : FailFirst calls i e)
    (later : List (Run ε α)) : FailFirst (calls ++ later) i e := by
  -- calls up to the one that fails are the same in the longer list
  have hkeep : ∀ j ≤ i, (calls ++ later)[j]? = calls[j]? := fun j hj =>
    List.getElem?_append_left (Nat.lt_of_le_of_lt hj h.lt_length)
  unfold FailFirst
  rw [hkeep i (Nat.le_refl i)]
  refine ⟨h.1, fun j hj => ?_⟩
  rw [hkeep j (Nat.le_of_lt hj)]
  exact h.2 j hj

end ScalarRoots.Run
