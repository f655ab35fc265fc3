import ForestPager.Event
import ForestPager.Leaves
import ForestPager.Page

/-!
# Running one round

A `Traversal` is a query with its forest. It holds no progress of its own: given
a round it says what to ask for, and given the answer it makes the page and the
next round. Whatever goes wrong, the round that was given is still there.

* `opening` decides, before anything is asked, whether the round is refused, ends
  the run, or asks for something.
* `settle` folds the answer in.
* `runRound` is the one after the other, with one fetch in between.

Results:

* `opening_initial`: a new round asks for everything.
* `opening_eq_refused_iff`: exactly the finished rounds are refused.
* `settle_failed`: after a failure there is no next round.
-/

namespace ForestPager

/-- A query with its forest, as a `RoundExecutor` holds them. -/
structure Traversal where
  shape : Shape
  forest : Forest
deriving DecidableEq, Inhabited

/-- What a round comes to before anything is asked: it is finished; no leaf is left, and the
cursors that remain are excluded; or there are leaves to advance with a request. -/
inductive Opening
  | refused
  | closing
  | asking (leaves : List QueryId) (request : Request)
deriving DecidableEq

/-- What running a round came to: the page and the round to go on from, or what went wrong, and
what happened, in order. -/
structure RoundRun where
  result : Except Failure (Page × Round)
  events : List Event

namespace Traversal

/-- The query with the forest of its own sub-queries, as a `RoundExecutor` links it when no forest
is given. -/
def ofShape (s : Shape) : Except Forest.Defect Traversal := s.forest.map fun f => ⟨s, f⟩

/-- Whether an id belongs to the query: the `_working_set` of a `RoundExecutor`. -/
def within (t : Traversal) (x : QueryId) : Bool := t.shape.contains x

/-- What `RoundExecutor.execute` comes to before anything is asked. -/
def opening (t : Traversal) (r : Round) : Opening :=
  if r.finished then .refused
  else if r.isNew then .asking [] (.full t.shape)
  else
    match r.leaves t.forest t.within with
    | [] => .closing
    | leaf :: leaves => .asking (leaf :: leaves) (.advancing t.forest t.shape r (leaf :: leaves))

/-- The leaves of a round and what to ask for (`RoundExecutor.plan`); nothing when no leaf is
left. -/
def plan (t : Traversal) (r : Round) : Except Failure (List QueryId × Option Request) :=
  match t.opening r with
  | .refused => .error Failure.noLeavesLeft
  | .closing => .ok ([], none)
  | .asking leaves request => .ok (leaves, some request)

/-- How `RoundExecutor.execute` ends a run that has no leaf left. -/
def close (r : Round) (index : Int) : RoundRun where
  result := .ok ({ finished := true, index }, r.finish)
  events := [.runFinished (index + 1) (sortIds r.cursors.keys)]

/-- The announcement of a request, with `log_round_planned`. -/
def planned (index : Int) (leaves : List QueryId) (request : Request) : Event :=
  .roundPlanned index leaves request.ids request.cursors.keys

/-- The report of cursors for ids outside the query, if there are any, with `log_cursor_dropped`. -/
def dropped (t : Traversal) (reply : Reply) : List Event :=
  match reply.nextCursors.keys.filter fun x => !t.within x with
  | [] => []
  | x :: xs => [.cursorsDropped (sortIds (x :: xs))]

/-- What `RoundExecutor.execute` makes of the answer to a request: a page and the next round. -/
def settle (t : Traversal) (r : Round) (index : Int) (leaves : List QueryId) :
    Outcome → RoundRun
  | .error failure =>
    { result := .error failure
      events := if failure.isOrdinary then [.roundFailed index failure] else [] }
  | .ok reply =>
    -- cursors for ids outside the query are reported and go no further
    let next := r.advance reply.nextCursors t.within
    match reply.listItems with
    | .error failure => { result := .error failure, events := t.dropped reply }
    | .ok items =>
      { result := .ok ({ items, finished := next.finished, index, leaves }, next)
        events := t.dropped reply ++ [.roundCompleted index items.total next.cursors.size] ++
          if next.finished then [.runFinished (index + 1) []] else [] }

/-- Run one round, with at most one fetch (`RoundExecutor.execute`). -/
def runRound {m : Type → Type} [Monad m] (t : Traversal) (fetch : Request → m Outcome)
    (r : Round) (index : Int) : m RoundRun :=
  match t.opening r with
  | .refused => pure { result := .error Failure.roundOver, events := [] }
  | .closing => pure (close r index)
  | .asking leaves request => do
    let run := t.settle r index leaves (← fetch request)
    pure { run with events := planned index leaves request :: run.events }

theorem opening_initial (t : Traversal) (excluded : IdSet) :
    t.opening (.initial excluded) = .asking [] (.full t.shape) := rfl

/-- Exactly the finished rounds are refused. -/
theorem opening_eq_refused_iff (t : Traversal) (r : Round) :
    t.opening r = .refused ↔ r.finished = true := by
  unfold opening
  split
  · next h => simp [h]
  · next h =>
    split
    · simp [h]
    · split <;> simp [h]

@[simp] theorem settle_failed (t : Traversal) (r : Round) (index : Int) (leaves : List QueryId)
    (failure : Failure) :
    (t.settle r index leaves (.error failure)).result = .error failure := rfl

end Traversal

end ForestPager
