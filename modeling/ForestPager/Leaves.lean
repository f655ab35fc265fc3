import ForestPager.Failure
import ForestPager.Round

/-!
# Leaves of a round

Following every cursor at once would page a sub-query against a page of its
parent that it does not belong to. So each round advances only the deepest
sub-queries that can be advanced, the *leaves*: those with a cursor, not
excluded, and with no leaf below them. Each branch of the forest has at most one.

The search goes down from the roots and does not enter what is not `within` the
query.

Results:

* `leavesFrom_of_not_within`: a tree outside the query has no leaves.
* `leavesFrom_succ`: leaves below a sub-query hide the sub-query itself.
* `Round.isEligible_of_mem_leaves`: only what may be advanced is a leaf.
-/

namespace ForestPager

namespace Forest

/-- The leaves of the tree under an id (`LeafSelector._find_leaves`), itself included, in the
order of the walk; `depth` bounds how far down the search goes. -/
def leavesFrom (f : Forest) (within eligible : QueryId → Bool) :
    (depth : Nat) → QueryId → List QueryId
  | 0, _ => []
  | n + 1, x =>
    if within x then
      -- every child is searched, since each branch can give a leaf of its own
      let below := (f.children x).flatMap (f.leavesFrom within eligible n)
      if below.isEmpty && eligible x then [x] else below
    else []

theorem leavesFrom_of_not_within (f : Forest) {within eligible : QueryId → Bool} {x : QueryId}
    (h : within x = false) (n : Nat) : f.leavesFrom within eligible n x = [] := by
  cases n <;> simp [leavesFrom, h]

/-- Leaves below a sub-query hide the sub-query itself. -/
theorem leavesFrom_succ (f : Forest) {within eligible : QueryId → Bool} {x : QueryId}
    (h : within x = true) (n : Nat) :
    f.leavesFrom within eligible (n + 1) x =
      if ((f.children x).flatMap (f.leavesFrom within eligible n)).isEmpty && eligible x
      then [x] else (f.children x).flatMap (f.leavesFrom within eligible n) := by
  rw [leavesFrom, if_pos h]

theorem eligible_of_mem_leavesFrom (f : Forest) {within eligible : QueryId → Bool} {n : Nat}
    {x y : QueryId} (h : y ∈ f.leavesFrom within eligible n x) : eligible y = true := by
  induction n generalizing x with
  | zero => simp [leavesFrom] at h
  | succ n ih =>
    have hbelow : y ∈ (f.children x).flatMap (f.leavesFrom within eligible n) →
        eligible y = true := by
      intro hy
      obtain ⟨c, -, hc⟩ := List.mem_flatMap.1 hy
      exact ih hc
    unfold leavesFrom at h
    split at h
    · dsimp only at h
      split at h
      · next hx =>
        rw [List.mem_singleton] at h
        rw [Bool.and_eq_true] at hx
        exact h ▸ hx.2
      · exact hbelow h
    · simp at h

end Forest

namespace Round

/-- The leaves of a round, tree by tree. -/
def leaves (r : Round) (f : Forest) (within : QueryId → Bool) : List QueryId :=
  f.roots.flatMap (f.leavesFrom within r.isEligible f.size)

/-- Only what may be advanced is a leaf. -/
theorem isEligible_of_mem_leaves {r : Round} {f : Forest} {within : QueryId → Bool} {x : QueryId}
    (h : x ∈ r.leaves f within) : r.isEligible x = true := by
  obtain ⟨root, -, hx⟩ := List.mem_flatMap.1 h
  exact f.eligible_of_mem_leavesFrom hx

/-- The leaves of a round that is not over (`LeafSelector.collect_leaves`). -/
def selectLeaves (r : Round) (f : Forest) (within : QueryId → Bool) :
    Except Failure (List QueryId) :=
  if r.finished then .error Failure.noLeavesLeft else .ok (r.leaves f within)

end Round

end ForestPager
