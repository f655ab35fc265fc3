import ForestPager.QueryId

/-!
# Walks over linked ids

Two ways to move along links between ids. `tour` goes forward: it visits the
first pending id and puts that id's successors in front of the rest, so a tree is
visited in preorder. `climb` goes backward along a single link. Neither keeps a
record of where it has been; both are given a number of steps to take.

Results:

* `tour_cons`, `length_visited_le`: a step of a tour visits one id, and never more.
* `climb_of_none`, `climb_of_some`: a climb goes on as long as there is a link.
-/

namespace ForestPager

/-- What a tour has done: the ids visited, in order, and those still pending. -/
structure Tour where
  visited : List QueryId
  pending : List QueryId
deriving DecidableEq

/-- The loop of `DependencyForest.descendants`: visit pending ids one at a time, at most `steps`
of them; the successors of a visited id are visited before the ids that were pending with it. -/
def tour (next : QueryId → List QueryId) : (steps : Nat) → (pending : List QueryId) → Tour
  | 0, pending => ⟨[], pending⟩
  | _ + 1, [] => ⟨[], []⟩
  | n + 1, x :: pending =>
    let rest := tour next n (next x ++ pending)
    ⟨x :: rest.visited, rest.pending⟩

@[simp] theorem tour_zero (next : QueryId → List QueryId) (pending : List QueryId) :
    tour next 0 pending = ⟨[], pending⟩ := rfl

@[simp] theorem tour_nil (next : QueryId → List QueryId) (n : Nat) :
    tour next n [] = ⟨[], []⟩ := by
  cases n <;> rfl

theorem tour_cons (next : QueryId → List QueryId) (n : Nat) (x : QueryId)
    (pending : List QueryId) :
    tour next (n + 1) (x :: pending) =
      ⟨x :: (tour next n (next x ++ pending)).visited,
        (tour next n (next x ++ pending)).pending⟩ := rfl

/-- A tour of `n` steps visits at most `n` ids. -/
theorem length_visited_le (next : QueryId → List QueryId) (n : Nat) (pending : List QueryId) :
    (tour next n pending).visited.length ≤ n := by
  induction n generalizing pending with
  | zero => simp
  | succ n ih =>
    cases pending with
    | nil => simp
    | cons x rest => simpa [tour_cons] using ih (next x ++ rest)

/-- The loop of `DependencyForest.ancestors`: follow a single link upward, at most `steps` times;
the nearest id first. -/
def climb (up : QueryId → Option QueryId) : (steps : Nat) → QueryId → List QueryId
  | 0, _ => []
  | n + 1, x =>
    match up x with
    | none => []
    | some p => p :: climb up n p

theorem climb_of_none {up : QueryId → Option QueryId} {x : QueryId} (h : up x = none) (n : Nat) :
    climb up n x = [] := by
  cases n <;> simp [climb, h]

theorem climb_of_some {up : QueryId → Option QueryId} {x p : QueryId} (h : up x = some p)
    (n : Nat) : climb up (n + 1) x = p :: climb up n p := by
  simp [climb, h]

end ForestPager
