import Mathlib.Data.List.Induction

/-!
# The latest entry of a list

A list that grows at its end is a history.  `IsLatest` picks out the latest entry with a
property, where the property may depend on what came before the entry.  A register that is
overwritten by the entries with the property, and by no others, holds what the latest of
them left there.

## Key results

- `isLatest_append_singleton`: the latest entry of a longer history
- `eq_some_iff_isLatest`: the content of a register
-/

namespace ScalarRoots

variable {α β : Type}

/-- `a`, which comes after `before`, is the latest entry of `l` with the property `p`. -/
def IsLatest (p : List α → α → Prop) (l before : List α) (a : α) : Prop :=
  ∃ later, l = before ++ a :: later ∧ p before a ∧
    ∀ mid b rest, later = mid ++ b :: rest → ¬ p (before ++ a :: mid) b

variable {p : List α → α → Prop}

/-- The latest element with the property has it. -/
theorem IsLatest.property {l before : List α} {a : α} (h : IsLatest p l before a) :
    p before a := by
  obtain ⟨_, -, ha, -⟩ := h
  exact ha

/-- In an empty list there is none. -/
theorem not_isLatest_nil {before : List α} {a : α} : ¬ IsLatest p [] before a := by
  intro h
  obtain ⟨later, hl, -⟩ := h
  exact absurd hl (by simp)

/-- An entry of a history that ends with `b` is `b` itself or comes before it. -/
private theorem entry_append_singleton {l before later : List α} {a b : α}
    (h : l ++ [b] = before ++ a :: later) :
    (before = l ∧ a = b ∧ later = []) ∨ ∃ mid, later = mid ++ [b] ∧ l = before ++ a :: mid := by
  rcases List.eq_nil_or_concat later with rfl | ⟨mid, c, rfl⟩
  · obtain ⟨hl, hb⟩ := List.append_inj' h rfl
    exact .inl ⟨hl.symm, (List.singleton_inj.1 hb).symm, rfl⟩
  · have hsplit : l ++ [b] = (before ++ a :: mid) ++ [c] := by
      rw [h]
      simp
    obtain ⟨hl, hb⟩ := List.append_inj' hsplit rfl
    rw [List.singleton_inj.1 hb]
    exact .inr ⟨mid, by simp, hl⟩

/-- An entry with the property is the latest one at the end of a history. -/
theorem isLatest_append_of_pos {l before : List α} {a b : α} (hb : p l b) :
    IsLatest p (l ++ [b]) before a ↔ before = l ∧ a = b := by
  constructor
  · intro h
    obtain ⟨later, hl, -, hno⟩ := h
    rcases entry_append_singleton hl with ⟨hbefore, hab, -⟩ | ⟨mid, hlater, hmid⟩
    · exact ⟨hbefore, hab⟩
    · -- `b` would come later than `a`
      rw [hmid] at hb
      exact absurd hb (hno mid b [] hlater)
  · intro h
    obtain ⟨rfl, rfl⟩ := h
    exact ⟨[], rfl, hb, fun mid c rest hnil => absurd hnil (by simp)⟩

/-- An entry without the property does not change which one is the latest. -/
theorem isLatest_append_of_neg {l before : List α} {a b : α} (hb : ¬ p l b) :
    IsLatest p (l ++ [b]) before a ↔ IsLatest p l before a := by
  constructor
  · intro h
    obtain ⟨later, hl, ha, hno⟩ := h
    rcases entry_append_singleton hl with ⟨rfl, rfl, -⟩ | ⟨mid, hlater, hmid⟩
    · exact absurd ha hb
    · refine ⟨mid, hmid, ha, fun mid' c rest hrest => ?_⟩
      apply hno mid' c (rest ++ [b])
      rw [hlater, hrest]
      simp
  · intro h
    obtain ⟨later, rfl, ha, hno⟩ := h
    refine ⟨later ++ [b], by simp, ha, fun mid c rest hrest => ?_⟩
    rcases entry_append_singleton hrest with ⟨rfl, rfl, -⟩ | ⟨rest', -, hrest'⟩
    · exact hb
    · exact hno mid c rest' hrest'

/-- A register that the entries with the property overwrite, and no others, holds what the
    latest of them left there. -/
theorem eq_some_iff_isLatest {g : List α → Option β} {written : List α → α → Option β}
    (hnil : g [] = none) (hwrite : ∀ l b, p l b → g (l ++ [b]) = written l b)
    (hkeep : ∀ l b, ¬ p l b → g (l ++ [b]) = g l) (l : List α) (v : β) :
    g l = some v ↔ ∃ before a, IsLatest p l before a ∧ written before a = some v := by
  -- Induction from the end, where the register was written last or kept.
  induction l using List.reverseRecOn with
  | nil =>
    rw [hnil]
    exact ⟨nofun, fun ⟨_, _, h, _⟩ => absurd h not_isLatest_nil⟩
  | append_singleton l b ih =>
    by_cases hb : p l b
    · rw [hwrite l b hb]
      constructor
      · intro h
        exact ⟨l, b, (isLatest_append_of_pos hb).2 ⟨rfl, rfl⟩, h⟩
      · intro hlatest
        obtain ⟨before, a, ha, h⟩ := hlatest
        obtain ⟨rfl, rfl⟩ := (isLatest_append_of_pos hb).1 ha
        exact h
    · rw [hkeep l b hb, ih]
      simp only [isLatest_append_of_neg hb]

end ScalarRoots
