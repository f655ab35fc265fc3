import ForestPager.Cursor

/-!
# Rounds

A round is the state between two requests: the cursors of the last answer, those
of the answer before, and the sub-queries whose cursors are never followed. It is
never changed; every answer yields a new round, so a request that fails leaves
its round as it was. Answers enter only the cursors that are there; a sub-query
that a round lists without a cursor counts as one that is to start over.

Results:

* `Round.state_eq_finished_iff`: a round is finished when it is not new and holds
  no cursor.
* `Round.get?_advance`: which cursors the next round holds.
* `Round.finished_finish`: a round that is ended is finished.
-/

namespace ForestPager

/-- The state of a run between two requests (`CursorRound`), new until an answer has come. It has
the cursors of the last answer and, as the `earlier` ones, those of the answer before; the cursors
of `excluded` sub-queries are never followed. -/
structure Round where
  isNew : Bool := true
  cursors : NextCursors := ∅
  earlier : NextCursors := ∅
  excluded : IdSet := ∅
deriving DecidableEq, Inhabited

/-- The stages of a run (`SessionState`): nothing has been fetched, there are cursors to follow or
to give up, or there is nothing more to fetch. -/
inductive RunState
  | new
  | active
  | finished
deriving DecidableEq

namespace Round

/-- The round that a run starts from (`CursorRound.initial`). -/
def initial (excluded : IdSet) : Round := { excluded }

/-- Whether the run is over: something was fetched, and nothing is listed
(`CursorRound.finished`). -/
def finished (r : Round) : Bool := !r.isNew && r.cursors.isEmpty

/-- The stage that the run is in (`CursorRound.state`). -/
def state (r : Round) : RunState :=
  if r.isNew then .new else if r.cursors.isEmpty then .finished else .active

/-- Whether the cursors of an id are never followed (`CursorRound.is_excluded`). -/
def isExcluded (r : Round) (x : QueryId) : Bool := r.excluded.contains x

/-- Whether the cursor of an id may be followed. -/
def isEligible (r : Round) (x : QueryId) : Bool := !r.isExcluded x && r.cursors.contains x

/-- The cursor with which `LeafSelector.compose` repeats an id above a leaf. -/
def replayCursor (r : Round) (x : QueryId) : Option Cursor :=
  if r.isExcluded x then none else (r.earlier.get? x).join

/-- The round after an answer (`CursorRound.advance`), with its cursors, as far as they belong to
ids `within` the query, and the present ones as the earlier ones. -/
def advance (r : Round) (returned : NextCursors) (within : QueryId → Bool) : Round where
  isNew := false
  cursors := returned.filterMap fun x c => if within x then c.map some else none
  earlier := r.cursors
  excluded := r.excluded

/-- The round that ends a run without an answer (`CursorRound.finish`). -/
def finish (r : Round) : Round := { isNew := false, excluded := r.excluded }

theorem state_eq_finished_iff (r : Round) : r.state = .finished ↔ r.finished = true := by
  unfold state finished
  cases r.isNew <;> cases r.cursors.isEmpty <;> simp

theorem state_eq_new_iff (r : Round) : r.state = .new ↔ r.isNew = true := by
  unfold state
  cases r.isNew <;> cases r.cursors.isEmpty <;> simp

theorem state_eq_active_iff (r : Round) :
    r.state = .active ↔ r.isNew = false ∧ r.finished = false := by
  unfold state finished
  cases r.isNew <;> cases r.cursors.isEmpty <;> simp

/-- The next round holds what was returned for the ids of the query. -/
theorem get?_advance (r : Round) (returned : NextCursors) (within : QueryId → Bool)
    (x : QueryId) :
    (r.advance returned within).cursors.get? x =
      if within x then (returned.get? x).join.map some else none := by
  rw [advance, OrderedMap.get?_filterMap]
  cases returned.get? x <;> cases within x <;> rfl

/-- A finished round holds nothing. -/
theorem get?_of_finished {r : Round} (h : r.finished = true) (x : QueryId) :
    r.cursors.get? x = none := by
  rw [finished, Bool.and_eq_true, OrderedMap.isEmpty_iff] at h
  exact h.2 x

/-- A round that lists an id is not finished. -/
theorem finished_eq_false_of_mem {r : Round} {x : QueryId} (h : x ∈ r.cursors.keys) :
    r.finished = false := by
  rw [← Bool.not_eq_true]
  intro hf
  exact (OrderedMap.get?_eq_none_iff r.cursors x).1 (get?_of_finished hf x) h

@[simp] theorem finished_finish (r : Round) : r.finish.finished = true := rfl

@[simp] theorem isEligible_iff (r : Round) (x : QueryId) :
    r.isEligible x = true ↔ r.isExcluded x = false ∧ x ∈ r.cursors.keys := by
  rw [isEligible, Bool.and_eq_true, Bool.not_eq_true', OrderedMap.contains_iff]

end Round

end ForestPager
