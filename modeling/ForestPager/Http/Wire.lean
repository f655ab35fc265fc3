import ForestPager.Page

/-!
# The form of requests and answers on the wire

A request goes out as an object with the definitions, the columns and the cursors
of its sub-queries, and the parameters if there are any. An answer is an object
with the items of each sub-query and, under `nextCursor`, where to go on. Void
items are an empty list, and a null cursor is none.

Results:

* `Request.body`: the form of a request.
* `Reply.ofResponse_not_obj`: only objects are answers.
-/

namespace ForestPager

namespace Request

/-- The body that is posted for a request (`build_query_body`). -/
def body (q : Request) : Json :=
  .obj ([("with", .obj (q.queries.entries.map fun e => (e.1, .obj e.2.subQuery.definition))),
      ("select", .obj (q.queries.entries.map fun e => (e.1, .obj e.2.subQuery.select))),
      ("cursors", .obj (q.cursors.entries.map fun e => (e.1, e.2.value)))] ++
    if q.parameters.isEmpty then [] else [("parameters", .obj q.parameters)])

end Request

namespace Reply

/-- The items of an answer, sub-query by sub-query. -/
def itemsOfResponse : Json.Fields → Except Failure (List (QueryId × Json))
  | [] => .ok []
  | (x, v) :: rest => do
    let vs ← Payload.optionalElements v
    let items ← itemsOfResponse rest
    pure ((x, .arr vs) :: items)

/-- The cursors of an answer. -/
def cursorsOfResponse (fields : Json.Fields) : List (QueryId × Option Cursor) :=
  fields.filterMap fun f => (Cursor.ofJson? f.2).map fun c => (f.1, some c)

/-- Read the answer to a request (`parse_query_response`). -/
def ofResponse : Json → Except Failure Reply
  | .obj fields => do
    let items ← Payload.optionalFields "items" (Json.fieldOrNull "items" fields)
    let items ← itemsOfResponse items
    let next ← Payload.optionalFields "items" (Json.fieldOrNull "nextCursor" fields)
    pure ⟨.ofList items, .ofList (cursorsOfResponse next)⟩
  | v => .error (.executor ("Unexpected query response type: " ++ v.typeName) none none)

theorem ofResponse_not_obj {v : Json} (h : ∀ fields, v ≠ .obj fields) :
    ofResponse v =
      .error (.executor ("Unexpected query response type: " ++ v.typeName) none none) := by
  cases v <;> first | rfl | exact absurd rfl (h _)

end Reply

end ForestPager
