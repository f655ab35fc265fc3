import ForestPager.Proofs.Body.Grammar
import ForestPager.Proofs.RequestedShape

/-!
# The body of a request is read back

A shape is read from a query body, and the requests for its sub-queries are written as query
bodies again. Such a body gives back what is asked for. What is read from a body is consistent:
no id is blank, and the sources are those that the definitions name. Narrowing keeps this, and
whatever is consistent is read back, with columns and parameters that are objects now, or left
out if there are none.

Results:

* `Shape.consistent_of_ofBody`, `Shape.Consistent.part`: what is read is consistent, and so are
  its parts.
* `Request.ofBody_body_iff`: a request is read back exactly if it asks for a consistent shape.
* `Request.body_cursors`: the cursors on the wire.
* `bodies_read_back`: all of it, for the requests for parts of a shape that was read.
-/

namespace ForestPager

/-! ## Consistent shapes -/

/-- A shape as it may have been read from a body: no id is blank, and the sources are those that
the definitions name. -/
structure Shape.Consistent (s : Shape) : Prop where
  id : ∀ x ∈ s.ids, Text.isBlankText x = false
  source : ∀ x q, s.queries.get? x = some q → NamesSource q.definition q.source

namespace Shape

variable {body : Json} {s : Shape}

/-- What is read from a body is consistent. -/
theorem consistent_of_ofBody (h : ofBody body = .ok s) : s.Consistent := by
  obtain ⟨fields, -, -, hblank, ⟨queries, hqueries, hs⟩, -⟩ := ofBody_eq_ok_iff.1 h
  have hmem : ∀ {x q}, s.queries.get? x = some q → (x, q) ∈ queries := by
    rw [hs]
    exact OrderedMap.mem_of_get?_ofList
  constructor
  · intro x hx
    obtain ⟨q, hq⟩ := (OrderedMap.mem_keys_iff _ x).1 hx
    have hkey := List.mem_map_of_mem (f := Prod.fst) (hmem hq)
    rw [map_fst_of_declares hqueries] at hkey
    obtain ⟨d, hd, rfl⟩ := List.mem_map.1 hkey
    exact hblank d hd
  · intro x q hq
    obtain ⟨d, hd⟩ := exists_forall₂_iff.1 ⟨_, hqueries.flip⟩ (x, q) (hmem hq)
    exact hd.source

/-- A part of a consistent shape is consistent. -/
theorem Consistent.part (h : s.Consistent) (ids : List QueryId) : (s.part ids).Consistent := by
  have hget : ∀ {x q}, (s.part ids).queries.get? x = some q → s.queries.get? x = some q := by
    intro x q hq
    unfold Shape.part subset at hq
    rw [OrderedMap.get?_filterKeys] at hq
    split at hq
    · exact hq
    · cases hq
  constructor
  · intro x hx
    obtain ⟨q, hq⟩ := (OrderedMap.mem_keys_iff _ x).1 hx
    exact h.id x ((OrderedMap.mem_keys_iff _ x).2 ⟨q, hget hq⟩)
  · exact fun x q hq => h.source x q (hget hq)

end Shape

/-! ## Reading the body of a request -/

namespace Request

variable {q : Request} {x : QueryId} {r : Requested}

theorem get?_shape (h : (x, r) ∈ q.queries.entries) : q.shape.queries.get? x = some r.subQuery := by
  rw [queries_shape, OrderedMap.get?_mapValues, q.queries.get?_eq_some_iff.2 h]
  rfl

/-- The columns of a sub-query are read back. -/
theorem readsAs_columns (h : (x, r) ∈ q.queries.entries) :
    (Json.fieldOrNull x (q.queries.entries.map fun e => (e.1, .obj e.2.subQuery.select))).ReadsAs
      r.subQuery.select := by
  have hcolumns : Json.fieldOrNull x
      (q.queries.entries.map fun e => (e.1, .obj e.2.subQuery.select)) =
        .obj r.subQuery.select := by
    show ((q.queries.mapValues fun _ r => Json.obj r.subQuery.select).get? x).getD .null = _
    rw [OrderedMap.get?_mapValues, q.queries.get?_eq_some_iff.2 h]
    rfl
  rw [hcolumns]
  exact .object _

/-- The parameters are read back, also if they are left out. -/
theorem readsAs_parameters (q : Request) :
    (Json.fieldOrNull "parameters"
      (if q.parameters.isEmpty then [] else [("parameters", .obj q.parameters)])).ReadsAs
        q.parameters := by
  cases q.parameters with
  | nil => exact .absent rfl
  | cons => exact .object _

/-- A request is read back exactly if it asks for a consistent shape. -/
theorem ofBody_body_iff : Shape.ofBody q.body = .ok q.shape ↔ q.shape.Consistent := by
  refine ⟨Shape.consistent_of_ofBody, fun h => ?_⟩
  refine Shape.ofBody_eq_ok_iff.2 ⟨_, rfl, .inr ⟨_, rfl⟩, ?_,
    ⟨q.shape.queries.entries, ?_, (OrderedMap.ofList_entries _).symm⟩, q.readsAs_parameters⟩
  · refine List.forall_mem_map.2 fun e he => h.id e.1 ?_
    rw [q.ids_shape]
    exact List.mem_map_of_mem he
  · -- both lists are made from the entries of the request
    refine List.forall₂_map_left_iff.2 (List.forall₂_map_right_iff.2 (List.forall₂_same.2 ?_))
    intro e he
    exact ⟨rfl, rfl, h.source e.1 _ (get?_shape he), .inr ⟨_, rfl⟩, readsAs_columns he⟩

/-- The first request asks for the shape as it is. -/
theorem shape_full (s : Shape) : (full s).shape = s := by
  have hqueries : (full s).shape.queries = s.queries := OrderedMap.ext (by
    show (s.queries.entries.map _).map _ = _
    rw [List.map_map]
    exact List.map_id _)
  unfold shape
  exact congrArg (Shape.mk · s.parameters) hqueries

/-- The cursors in a body are those of the request. -/
theorem body_cursors (q : Request) :
    ∃ fields cursors, q.body = .obj fields ∧ Json.field? "cursors" fields = some (.obj cursors) ∧
      (cursors.map Prod.fst).Sublist q.ids ∧
      ∀ x, Json.field? x cursors = ((q.queries.get? x).bind (·.cursor)).map (·.value) := by
  refine ⟨_, _, rfl, rfl, ?_, fun x => ?_⟩
  · rw [List.map_map]
    exact OrderedMap.sublist_keys_filterMap (fun _ r => r.cursor) q.queries
  · show (q.cursors.mapValues fun _ c => c.value).get? x = _
    rw [OrderedMap.get?_mapValues, Request.cursors, OrderedMap.get?_filterMap]

end Request

/-! ## Requests for what was read -/

/-- The body of a request is read back. Where a request asks for some sub-queries of a shape that
was read from a body, with whatever cursors, its own body is read, and what is read are these
sub-queries, in the same order and with the same sources, definitions and columns, and the same
parameters; the cursors in it are those of the request. From the request for everything the shape
is read back, and its body has the definitions of the body that was read, if that was well formed,
every one as it was; none if there were none. -/
theorem bodies_read_back {body : Json} {s : Shape} (hs : Shape.ofBody body = .ok s) :
    (∀ (q : Request) (ids : List QueryId), q.shape = s.part ids →
      Shape.ofBody q.body = .ok (s.part ids) ∧
      ∃ fields cursors, q.body = .obj fields ∧
        Json.field? "cursors" fields = some (.obj cursors) ∧
        (cursors.map Prod.fst).Sublist q.ids ∧
        ∀ x, Json.field? x cursors = ((q.queries.get? x).bind (·.cursor)).map (·.value)) ∧
    Shape.ofBody (Request.full s).body = .ok s ∧
    (body.WellFormed → ∃ fields fields', body = .obj fields ∧
      (Request.full s).body = .obj fields' ∧
      Json.field? "with" fields' = some (.obj (Json.fieldOrNull "with" fields).members)) := by
  have hconsistent := Shape.consistent_of_ofBody hs
  refine ⟨fun q ids hq => ⟨?_, q.body_cursors⟩, ?_, fun hwell => ?_⟩
  · rw [← hq, Request.ofBody_body_iff, hq]
    exact hconsistent.part ids
  · have hfull := Request.ofBody_body_iff (q := Request.full s)
    rw [Request.shape_full] at hfull
    exact hfull.2 hconsistent
  · obtain ⟨fields, rfl, -⟩ := Shape.exists_ofBody_iff.1 ⟨s, hs⟩
    have hreading := Shape.isReadingOf_of_ofBody hwell hs
    refine ⟨fields, _, rfl, rfl, ?_⟩
    rw [Shape.eq_map_of_declares hreading.queries]
    show some (Json.obj ((s.queries.entries.map _).map _)) = _
    rw [List.map_map]
    rfl

/-- One sub-query of `oddShape`, from a cursor on. -/
def oddRequest : Request where
  queries := (oddShape.subset ["A"]).mapValues fun _ q => ⟨q, some (.ofText "c")⟩

/-- What `oddBody` asks for, also in part, is read back, now with columns in an object. -/
theorem bodies_read_back_oddBody :
    Shape.ofBody oddBody = .ok oddShape ∧ oddRequest.shape = oddShape.part ["A"] ∧
      Shape.ofBody oddRequest.body = .ok (oddShape.part ["A"]) ∧
      (∃ fields cursors, oddRequest.body = .obj fields ∧
        Json.field? "cursors" fields = some (.obj cursors) ∧
        Json.field? "A" cursors = some (.str "c") ∧ Json.field? "B" cursors = none) ∧
      oddBody.WellFormed ∧ ∃ fields fields', oddBody = .obj fields ∧
        (Request.full oddShape).body = .obj fields' ∧
        Json.field? "with" fields' = some (.obj (Json.fieldOrNull "with" fields).members) := by
  have hshape : oddRequest.shape = oddShape.part ["A"] := by decide +kernel
  obtain ⟨hparts, -, hfull⟩ := bodies_read_back ofBody_oddBody
  obtain ⟨hread, fields, cursors, hbody, hcursors, -, hcursor⟩ := hparts oddRequest ["A"] hshape
  refine ⟨ofBody_oddBody, hshape, hread, ⟨fields, cursors, hbody, hcursors, ?_, ?_⟩,
    wellFormed_oddBody, hfull wellFormed_oddBody⟩
  · rw [hcursor]
    decide +kernel
  · rw [hcursor]
    decide +kernel

end ForestPager
