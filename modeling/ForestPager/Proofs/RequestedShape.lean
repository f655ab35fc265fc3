import ForestPager.Http.Wire
import ForestPager.Proofs.Attempts
import ForestPager.Proofs.Forest.Reached
import ForestPager.Proofs.Paging.Following
import ForestPager.Proofs.Replay

/-!
# A request is itself a query

A request that advances some leaves leaves sub-queries out, but never one from which another
one that it asks for continues: around a leaf it takes everything above and everything below.
What it asks for is therefore a query again, the shape narrowed to fewer ids, and its
sub-queries form a forest. On the wire it names these ids and no others.

Results:

* `Traversal.Own.shape_of_asking`: a request is the shape narrowed to its ids.
* `Traversal.Own.source_mem_ids`: what a requested sub-query continues from is requested.
* `Traversal.Own.forest_of_asking`: the requested sub-queries form a forest.
* `Request.body_eq`: the keys on the wire.
* `requests_are_queries`: all of it, for the requests of a run.
-/

namespace ForestPager

/-- The sub-queries that a request asks for, as a query of their own. -/
def Request.shape (q : Request) : Shape where
  queries := q.queries.mapValues fun _ r => r.subQuery
  parameters := q.parameters

theorem Request.queries_shape (q : Request) :
    q.shape.queries = q.queries.mapValues fun _ r => r.subQuery := rfl

@[simp] theorem Request.ids_shape (q : Request) : q.shape.ids = q.ids :=
  OrderedMap.keys_mapValues _ _

/-! ## Narrowed shapes -/

/-- A query narrowed to some ids, in declaration order and with all parameters. -/
def Shape.part (s : Shape) (ids : List QueryId) : Shape := ⟨s.subset ids, s.parameters⟩

theorem Shape.dependencies_part (s : Shape) (ids : List QueryId) :
    (s.part ids).dependencies = s.dependencies.filterKeys ids.contains :=
  OrderedMap.mapValues_filterKeys _ _ _

/-! ## The requests of a traversal -/

namespace Traversal.Own

variable {t : Traversal} {r : Round} {leaves : List QueryId} {q : Request}

theorem fits_of_asking (ht : t.Own) (h : t.opening r = .asking leaves q) : q.Fits t := by
  rcases opening_eq_asking h with ⟨-, -, rfl⟩ | ⟨-, -, rfl⟩
  · exact Request.fits_full ht
  · exact Request.fits_advancing ht _ _

/-- A request is the shape narrowed to its ids. -/
theorem shape_of_asking (h : t.opening r = .asking leaves q) :
    q.shape = t.shape.part q.ids := by
  have hqueries : q.shape.queries = t.shape.subset q.ids := by
    rw [Request.queries_shape, queries_of_asking h, OrderedMap.mapValues_filterMap]
    unfold Shape.subset OrderedMap.filterKeys
    refine OrderedMap.filterMap_congr fun e _ => ?_
    rw [Option.map_map]
    cases hc : q.submitted? e.1 with
    | none =>
      have hno : e.1 ∉ q.ids := by
        rw [Request.mem_ids_iff, hc]
        simp
      rw [if_neg (by simpa using hno)]
      rfl
    | some c =>
      rw [if_pos (List.contains_iff_mem.2 ((Request.mem_ids_iff _).2 ⟨c, hc⟩))]
      rfl
  unfold Shape.part
  rw [← hqueries, ← parameters_of_asking h]
  rfl

theorem ids_sublist_of_asking (h : t.opening r = .asking leaves q) :
    q.ids.Sublist t.shape.ids := by
  rw [Request.ids, queries_of_asking h]
  exact OrderedMap.sublist_keys_filterMap _ t.shape.queries

/-- Something is asked for, unless there is nothing to ask for. -/
theorem ids_ne_nil_of_asking (ht : t.Own) (h : t.opening r = .asking leaves q)
    (hne : t.shape.ids ≠ []) : q.ids ≠ [] := by
  rcases opening_eq_asking h with ⟨-, -, rfl⟩ | ⟨hn, rfl, rfl⟩
  · rwa [Request.ids_full]
  · obtain ⟨l, hl⟩ := List.exists_mem_of_ne_nil _ (leaves_ne_nil_of_asking h hn)
    exact List.ne_nil_of_mem ((Request.mem_ids_iff _).2 ⟨_, ht.submitted?_leaf hl⟩)

/-- What a requested sub-query continues from is requested. -/
theorem source_mem_ids (ht : t.Own) (h : t.opening r = .asking leaves q) {x p : QueryId}
    {requested : Requested} (hx : q.queries.get? x = some requested)
    (hp : requested.subQuery.source = some p) : p ∈ q.ids := by
  have hfits := ht.fits_of_asking h
  have hparent : t.forest.parent? x = some p := by
    rw [ht.parent?_eq, hfits.subQuery x requested hx]
    exact hp
  refine hfits.closed x ((OrderedMap.mem_keys_iff _ x).2 ⟨_, hx⟩) p ?_
  rw [ht.sound.ancestors_of_parent hparent]
  exact List.mem_cons_self

/-- The requested sub-queries form a forest. -/
theorem forest_of_asking (ht : t.Own) (h : t.opening r = .asking leaves q) :
    ∃ f, q.shape.forest = .ok f := by
  have hdeps : q.shape.dependencies = t.shape.dependencies.filterKeys q.ids.contains := by
    rw [shape_of_asking h, Shape.dependencies_part]
  unfold Shape.forest
  rw [hdeps]
  refine ⟨_, Forest.ofDependencies_filterKeys ht fun x p hx hp => ?_⟩
  rw [List.contains_iff_mem] at hx ⊢
  obtain ⟨requested, hrequested⟩ := (OrderedMap.mem_keys_iff _ x).1 hx
  refine ht.source_mem_ids h hrequested ?_
  have hsub := (ht.fits_of_asking h).subQuery x requested hrequested
  unfold Shape.dependencies at hp
  rw [OrderedMap.get?_mapValues, hsub] at hp
  exact Option.some.inj hp

end Traversal.Own

/-! ## The wire -/

/-- On the wire a request has its ids as the keys of the definitions and of the columns, and
some of them as the keys of the cursors. -/
theorem Request.body_eq (q : Request) :
    ∃ fields definitions columns cursors, q.body = .obj fields ∧
      Json.field? "with" fields = some (.obj definitions) ∧ definitions.map Prod.fst = q.ids ∧
      Json.field? "select" fields = some (.obj columns) ∧ columns.map Prod.fst = q.ids ∧
      Json.field? "cursors" fields = some (.obj cursors) ∧
        (cursors.map Prod.fst).Sublist q.ids := by
  refine ⟨_, _, _, _, rfl, rfl, ?_, rfl, ?_, rfl, ?_⟩
  · rw [List.map_map]
    rfl
  · rw [List.map_map]
    rfl
  · rw [List.map_map]
    exact OrderedMap.keys_filterMap_sublist (fun _ r => r.cursor) q.queries.entries

/-! ## Runs -/

/-- Every request of a run is that of a round of the same traversal. -/
theorem Session.exists_opening_of_mem_history {s : Session} {answers : List (Request → Outcome)}
    {u : Turn} {q : Request} (hu : u ∈ s.history answers) (hq : u.request = some q) :
    ∃ r leaves, s.traversal.opening r = .asking leaves q := by
  obtain ⟨us, vs, hsplit⟩ := List.append_of_mem hu
  obtain ⟨pre, answer, post, -, -, rfl, -⟩ := history_eq_append_cons hsplit
  obtain ⟨leaves, ho⟩ := exists_asking (s := s.after pre) hq
  rw [after_traversal] at ho
  exact ⟨_, leaves, ho⟩

/-- Every request is a query. What is asked for in any call of any run is the shape narrowed
to some of its ids, in declaration order and without repetition, and with the parameters of the
shape; to none of them only if there are none. With a sub-query it asks for the one that this
continues from, so that the sub-queries form a forest; and on the wire the definitions and the
columns are those of just these ids, and all cursors are for some of them. -/
theorem requests_are_queries {shape : Shape} {t : Traversal} (ht : Traversal.ofShape shape = .ok t)
    (excluded : IdSet) (answers : List (Request → Outcome)) :
    ∀ u ∈ (Session.start t excluded).history answers, ∀ q, u.request = some q →
      (q.ids.Nodup ∧ q.ids.Sublist shape.ids ∧ q.shape = shape.part q.ids) ∧
      (shape.ids ≠ [] → q.ids ≠ []) ∧
      (∀ x requested p, q.queries.get? x = some requested →
        requested.subQuery.source = some p → p ∈ q.ids) ∧
      (∃ f, q.shape.forest = .ok f) ∧
      ∃ fields definitions columns cursors, q.body = .obj fields ∧
        Json.field? "with" fields = some (.obj definitions) ∧ definitions.map Prod.fst = q.ids ∧
        Json.field? "select" fields = some (.obj columns) ∧ columns.map Prod.fst = q.ids ∧
        Json.field? "cursors" fields = some (.obj cursors) ∧
          (cursors.map Prod.fst).Sublist q.ids := by
  obtain ⟨hown, rfl⟩ := Traversal.own_of_ofShape ht
  intro u hu q hq
  obtain ⟨r, leaves, ho⟩ := Session.exists_opening_of_mem_history hu hq
  refine ⟨⟨q.queries.nodup_keys, Traversal.Own.ids_sublist_of_asking ho,
    Traversal.Own.shape_of_asking ho⟩, hown.ids_ne_nil_of_asking ho,
    fun x requested p => hown.source_mem_ids ho, hown.forest_of_asking ho, q.body_eq⟩

/-- A sub-query and two that continue from it. -/
def twoBranches : Traversal := .ofLinks [("A", none), ("B", some "A"), ("C", some "A")]

/-- Two pages of every sub-query of `twoBranches` but the last one, which has one. -/
def lastBranchShort : Paged := .ofCounts (.ofList [("A", 2), ("B", 2), ("C", 1)]) 1

/-- The second call of a run of `twoBranches` leaves the short branch out. -/
theorem requests_are_queries_twoBranches :
    Traversal.ofShape twoBranches.shape = .ok twoBranches ∧
    ∃ u ∈ (Session.start twoBranches ∅).history (List.replicate 2 lastBranchShort.answer),
      ∃ q, u.request = some q ∧ q.ids = ["A", "B"] ∧
        q.shape = twoBranches.shape.part ["A", "B"] ∧
        (∃ f, q.shape.forest = .ok f) ∧
        ∃ fields columns, q.body = .obj fields ∧
          Json.field? "select" fields = some (.obj columns) ∧
          columns.map Prod.fst = ["A", "B"] := by
  have hok : Traversal.ofShape twoBranches.shape = .ok twoBranches := by decide +kernel
  let s := (Session.start twoBranches ∅).after [lastBranchShort.answer]
  let u := s.turn lastBranchShort.answer
  have hu : u ∈ (Session.start twoBranches ∅).history (List.replicate 2 lastBranchShort.answer) :=
    List.mem_cons_of_mem _ List.mem_cons_self
  have hids : u.request.map Request.ids = some ["A", "B"] := by decide +kernel
  obtain ⟨q, hq, hqids⟩ := Option.map_eq_some_iff.1 hids
  obtain ⟨⟨-, -, hshape⟩, -, -, hforest, fields, -, columns, -, hbody, -, -, hcols, hkeys, -⟩ :=
    requests_are_queries hok ∅ (List.replicate 2 lastBranchShort.answer) u hu q hq
  rw [hqids] at hshape hkeys
  exact ⟨hok, u, hu, q, hq, hqids, hshape, hforest, fields, columns, hbody, hcols, hkeys⟩

end ForestPager
