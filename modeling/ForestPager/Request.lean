import ForestPager.Failure
import ForestPager.Round
import ForestPager.Shape.Basic
import ForestPager.Shape.Pairs

/-!
# Requests

A request names the sub-queries of one round, each with its cursor if it has one.
The first request asks for everything from the start. A later one advances some
leaves: a leaf goes on at its cursor, what is below it starts over, and what is
above it is repeated with the cursor it had one round earlier.

Results:

* `Request.ids_full`: the first request names every sub-query.
* `Request.mem_ids_advancing_iff`: a later request names what its leaves touch.
-/

namespace ForestPager

/-- A sub-query as it is asked for in one round (`RequestedQuery`); without a cursor it starts
over. -/
structure Requested where
  subQuery : SubQuery
  cursor : Option Cursor := none
deriving DecidableEq

/-- What is asked for in one round (`PageRequest`), in declaration order, with the parameters of
the query. -/
structure Request where
  queries : OrderedMap QueryId Requested
  parameters : Json.Fields := []
deriving DecidableEq

namespace Request

instance : Inhabited Request := ⟨⟨∅, []⟩⟩

/-- The ids asked for, in declaration order (`PageRequest.ids`). -/
def ids (q : Request) : List QueryId := q.queries.keys

/-- The cursors sent along, in declaration order (`PageRequest.cursors`). -/
def cursors (q : Request) : Cursors := q.queries.filterMap fun _ r => r.cursor

/-- The number of sub-queries asked for. -/
def size (q : Request) : Nat := q.queries.size

/-- The request for given sub-queries. The parameters may be given as pairs, and a
key that is no text is written out. -/
def ofParts (queries : List (QueryId × Requested)) (parameters : Json) :
    Except Failure Request :=
  (Pairs.ofOptional parameters).map fun pairs => ⟨.ofList queries, pairs.written⟩

/-- The request of the first round, for everything from the start (`LeafSelector.full_request`). -/
def full (s : Shape) : Request where
  queries := s.queries.mapValues fun _ q => ⟨q, none⟩
  parameters := s.parameters

@[simp] theorem ids_full (s : Shape) : (full s).ids = s.ids := OrderedMap.keys_mapValues _ _

/-! ## Advancing leaves -/

/-- What `LeafSelector.compose` gives to the ids around one leaf: its own cursor, none for what is
below it, and their replay cursors for what is above it. -/
def leafCursors (f : Forest) (r : Round) (leaf : QueryId) : List (QueryId × Option Cursor) :=
  (leaf, (r.cursors.get? leaf).join) :: ((f.descendants leaf).map fun x => (x, none)) ++
    (f.ancestors leaf).map fun x => (x, r.replayCursor x)

/-- What advancing leaves gives to the ids around them (`cursors` in `LeafSelector.compose`);
where two leaves touch one id, the later leaf has its way. -/
def assignedCursors (f : Forest) (r : Round) (leaves : List QueryId) :
    OrderedMap QueryId (Option Cursor) :=
  .ofList (leaves.flatMap (leafCursors f r))

/-- The request that `LeafSelector.compose` makes: the sub-queries that leaves touch, in
declaration order. -/
def advancing (f : Forest) (s : Shape) (r : Round) (leaves : List QueryId) : Request where
  queries := s.queries.filterMap fun x q =>
    ((assignedCursors f r leaves).get? x).map fun c => ⟨q, c⟩
  parameters := s.parameters

/-- The request that advances given leaves (`LeafSelector.compose`), each of which has to be
listed in the round and in the forest. -/
def compose (f : Forest) (s : Shape) (r : Round) (leaves : List QueryId) :
    Except Failure Request :=
  match leaves.find? fun x => !(r.cursors.contains x && f.contains x) with
  | some x => .error (.missingKey x)
  | none => .ok (advancing f s r leaves)

theorem mem_keys_assignedCursors (f : Forest) (r : Round) (leaves : List QueryId) (x : QueryId) :
    x ∈ (assignedCursors f r leaves).keys ↔
      ∃ l ∈ leaves, x = l ∨ x ∈ f.descendants l ∨ x ∈ f.ancestors l := by
  rw [assignedCursors, OrderedMap.mem_keys_ofList, List.map_flatMap, List.mem_flatMap]
  simp [leafCursors]

/-- A request names a sub-query when one of its leaves is that sub-query, above it
or below it. -/
theorem mem_ids_advancing_iff (f : Forest) (s : Shape) (r : Round) (leaves : List QueryId)
    (x : QueryId) :
    x ∈ (advancing f s r leaves).ids ↔
      x ∈ s.ids ∧ ∃ l ∈ leaves, x = l ∨ x ∈ f.descendants l ∨ x ∈ f.ancestors l := by
  rw [← mem_keys_assignedCursors f r, OrderedMap.mem_keys_iff, ids, OrderedMap.mem_keys_iff,
    Shape.ids, OrderedMap.mem_keys_iff]
  simp only [advancing, OrderedMap.get?_filterMap, Option.bind_eq_some_iff, Option.map_eq_some_iff]
  constructor
  · rintro ⟨v, q, hq, c, hc, -⟩
    exact ⟨⟨q, hq⟩, c, hc⟩
  · rintro ⟨⟨q, hq⟩, c, hc⟩
    exact ⟨_, q, hq, c, hc, rfl⟩

end Request

end ForestPager
