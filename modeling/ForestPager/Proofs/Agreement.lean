import ForestPager.Proofs.Outstanding
import ForestPager.Proofs.Paging.Following
import Mathlib.Data.Set.Basic

/-!
# Runs that agree on some ids

Take some ids that no link leads into or out of, and two queries with the same sub-queries
among them. What stands above and below these ids is then the same in both, whatever else the
queries hold and in whatever order they list it. Rounds with the same cursors for these ids have
the same leaves among them, submit the same for them, and stay so when the answers give them
the same. If all ids of one query are among them, then the other one asks for something whenever
that one does.

Results:

* `Traversal.AgreeOn.ancestors_eq`: the same ids stand above.
* `Round.AgreeOn.mem_leaves_iff`: the same ids are leaves.
* `Round.AgreeOn.submitted?_advancing`: the same is submitted.
* `Round.AgreeOn.asking`: the one asks for something if the other does.
* `Session.AgreeOn.proceed`: answers that agree lead to sessions that agree.
-/

namespace ForestPager

variable {ids : Set QueryId} {x : QueryId}

/-! ## Queries -/

/-- Two queries over forests of their own have the same parameters and the same sub-queries
among some ids, and no link leads into these ids or out of them. -/
structure Traversal.AgreeOn (ids : Set QueryId) (t t' : Traversal) : Prop where
  own : t.Own
  own' : t'.Own
  parameters : t.shape.parameters = t'.shape.parameters
  subQuery : ∀ x ∈ ids, t.shape.queries.get? x = t'.shape.queries.get? x
  linked : ∀ x y, t.forest.parent? y = some x → (x ∈ ids ↔ y ∈ ids)
  linked' : ∀ x y, t'.forest.parent? y = some x → (x ∈ ids ↔ y ∈ ids)

namespace Traversal.AgreeOn

variable {t t' : Traversal}

theorem symm (h : t.AgreeOn ids t') : t'.AgreeOn ids t where
  own := h.own'
  own' := h.own
  parameters := h.parameters.symm
  subQuery x hx := (h.subQuery x hx).symm
  linked := h.linked'
  linked' := h.linked

theorem mem_ids_iff (h : t.AgreeOn ids t') (hx : x ∈ ids) :
    x ∈ t.forest.ids ↔ x ∈ t'.forest.ids := by
  rw [h.own.ids_eq, h.own'.ids_eq, Shape.ids, Shape.ids, OrderedMap.mem_keys_iff,
    OrderedMap.mem_keys_iff, h.subQuery x hx]

theorem within_eq (h : t.AgreeOn ids t') (hx : x ∈ ids) : t.within x = t'.within x := by
  rw [Bool.eq_iff_iff, h.own.within_iff, h.own'.within_iff, h.mem_ids_iff hx]

theorem parent?_eq (h : t.AgreeOn ids t') (hx : x ∈ ids) :
    t.forest.parent? x = t'.forest.parent? x := by
  rw [h.own.parent?_eq, h.own'.parent?_eq, h.subQuery x hx]

/-- An id is among the ids exactly if an id above it is. -/
theorem mem_iff_of_mem_ancestors (h : t.AgreeOn ids t') {a : QueryId}
    (ha : a ∈ t.forest.ancestors x) : a ∈ ids ↔ x ∈ ids := by
  have hx := (h.own.sound.mem_ids_of_mem_ancestors ha).2
  revert ha
  induction x, hx using h.own.sound.induction_up with
  | root x _ hr => simp [Forest.ancestors_of_root hr]
  | child x p hp ih =>
    intro ha
    rw [h.own.sound.ancestors_of_parent hp, List.mem_cons] at ha
    rcases ha with rfl | ha
    · exact h.linked _ x hp
    · exact (ih ha).trans (h.linked p x hp)

/-- The same ids stand above, in the same order. -/
theorem ancestors_eq (h : t.AgreeOn ids t') (hx : x ∈ ids) :
    t.forest.ancestors x = t'.forest.ancestors x := by
  by_cases hmem : x ∈ t.forest.ids
  · induction x, hmem using h.own.sound.induction_up with
    | root x _ hr =>
      rw [Forest.ancestors_of_root hr, Forest.ancestors_of_root (h.parent?_eq hx ▸ hr)]
    | child x p hp ih =>
      have hp' : t'.forest.parent? x = some p := h.parent?_eq hx ▸ hp
      rw [h.own.sound.ancestors_of_parent hp, h.own'.sound.ancestors_of_parent hp',
        ih ((h.linked p x hp).2 hx)]
  · have hmem' : x ∉ t'.forest.ids := fun hx' => hmem ((h.mem_ids_iff hx).2 hx')
    rw [Forest.ancestors_of_root (Forest.parent?_eq_none_of_not_mem hmem),
      Forest.ancestors_of_root (Forest.parent?_eq_none_of_not_mem hmem')]

/-- An id stands above the same ids. -/
theorem mem_ancestors_iff (h : t.AgreeOn ids t') (hx : x ∈ ids) {y : QueryId} :
    x ∈ t.forest.ancestors y ↔ x ∈ t'.forest.ancestors y := by
  by_cases hy : y ∈ ids
  · rw [h.ancestors_eq hy]
  · exact iff_of_false (fun hxy => hy ((h.mem_iff_of_mem_ancestors hxy).1 hx))
      fun hxy => hy ((h.symm.mem_iff_of_mem_ancestors hxy).1 hx)

/-- What touches an id among the ids is among them. -/
theorem mem_of_touch (h : t.AgreeOn ids t') (hx : x ∈ ids) {l : QueryId}
    (hl : x = l ∨ l ∈ t.forest.ancestors x ∨ x ∈ t.forest.ancestors l) : l ∈ ids := by
  rcases hl with rfl | hl | hl
  · exact hx
  · exact (h.mem_iff_of_mem_ancestors hl).2 hx
  · exact (h.mem_iff_of_mem_ancestors hl).1 hx

end Traversal.AgreeOn

/-! ## Requests -/

/-- Two requests have the same parameters, and ask for the same among some ids: for the same
sub-queries, with the same cursors. -/
structure Request.AgreeOn (ids : Set QueryId) (q q' : Request) : Prop where
  parameters : q.parameters = q'.parameters
  queries : ∀ x ∈ ids, q.queries.get? x = q'.queries.get? x

theorem Request.AgreeOn.submitted?_eq {q q' : Request} (h : q.AgreeOn ids q') (hx : x ∈ ids) :
    q.submitted? x = q'.submitted? x := by
  unfold submitted?
  rw [h.queries x hx]

/-! ## Rounds -/

/-- Two rounds are both new or both not, exclude the same sub-queries, and have the same cursors,
and had the same ones before, for some ids. -/
structure Round.AgreeOn (ids : Set QueryId) (r r' : Round) : Prop where
  isNew : r.isNew = r'.isNew
  excluded : r.excluded = r'.excluded
  cursors : ∀ x ∈ ids, r.cursors.get? x = r'.cursors.get? x
  earlier : ∀ x ∈ ids, r.earlier.get? x = r'.earlier.get? x

namespace Round.AgreeOn

variable {r r' : Round} {t t' : Traversal}

theorem symm (h : r.AgreeOn ids r') : r'.AgreeOn ids r :=
  ⟨h.isNew.symm, h.excluded.symm, fun x hx => (h.cursors x hx).symm,
    fun x hx => (h.earlier x hx).symm⟩

theorem refl (r : Round) : r.AgreeOn ids r := ⟨rfl, rfl, fun _ _ => rfl, fun _ _ => rfl⟩

theorem finish (h : r.AgreeOn ids r') : r.finish.AgreeOn ids r'.finish :=
  ⟨rfl, h.excluded, fun _ _ => rfl, fun _ _ => rfl⟩

theorem isEligible_eq (h : r.AgreeOn ids r') (hx : x ∈ ids) :
    r.isEligible x = r'.isEligible x := by
  unfold isEligible isExcluded OrderedMap.contains
  rw [h.excluded, h.cursors x hx]

theorem replayCursor_eq (h : r.AgreeOn ids r') (hx : x ∈ ids) :
    r.replayCursor x = r'.replayCursor x := by
  unfold replayCursor isExcluded
  rw [h.excluded, h.earlier x hx]

/-- Answers that give the same lead to rounds that agree. -/
theorem advance (h : r.AgreeOn ids r') (ht : t.AgreeOn ids t') {returned returned' : NextCursors}
    (hc : ∀ x ∈ ids, (returned.get? x).join = (returned'.get? x).join) :
    (r.advance returned t.within).AgreeOn ids (r'.advance returned' t'.within) where
  isNew := rfl
  excluded := h.excluded
  cursors x hx := by
    rw [get?_advance, get?_advance, ht.within_eq hx, hc x hx]
  earlier := h.cursors

/-- The same ids are leaves. -/
theorem mem_leaves_iff (h : r.AgreeOn ids r') (ht : t.AgreeOn ids t') (hx : x ∈ ids) :
    x ∈ r.leaves t.forest t.within ↔ x ∈ r'.leaves t'.forest t'.within := by
  rw [ht.own.mem_leaves, ht.own'.mem_leaves, ht.mem_ids_iff hx, h.isEligible_eq hx]
  refine and_congr_right fun _ => and_congr_right fun _ => forall_congr' fun y => ?_
  rw [ht.mem_ancestors_iff hx]
  -- what stands below the id is among the ids, too
  refine imp_congr_right fun hxy => ?_
  rw [h.isEligible_eq ((ht.symm.mem_iff_of_mem_ancestors hxy).1 hx)]

/-- The same ids are touched by the leaves. -/
theorem touches_of_touches (h : r.AgreeOn ids r') (ht : t.AgreeOn ids t') (hx : x ∈ ids)
    (htouch : Request.Touches t.forest (r.leaves t.forest t.within) x) :
    Request.Touches t'.forest (r'.leaves t'.forest t'.within) x := by
  obtain ⟨l, hl, hlx⟩ := htouch
  have hmem := ht.mem_of_touch hx hlx
  refine ⟨l, (h.mem_leaves_iff ht hmem).1 hl, ?_⟩
  rwa [← ht.ancestors_eq hx, ← ht.ancestors_eq hmem]

/-- The same is submitted. -/
theorem submitted?_advancing (h : r.AgreeOn ids r') (ht : t.AgreeOn ids t') (hx : x ∈ ids) :
    (Request.advancing t.forest t.shape r (r.leaves t.forest t.within)).submitted? x =
      (Request.advancing t'.forest t'.shape r' (r'.leaves t'.forest t'.within)).submitted? x := by
  by_cases htouch : Request.Touches t.forest (r.leaves t.forest t.within) x
  · obtain ⟨l, hl, hlx⟩ := htouch
    have hmem := ht.mem_of_touch hx hlx
    have hl' := (h.mem_leaves_iff ht hmem).1 hl
    rcases hlx with rfl | hlx | hxl
    · rw [ht.own.submitted?_leaf hl, ht.own'.submitted?_leaf hl', h.cursors x hx]
    · rw [ht.own.submitted?_below hl hlx, ht.own'.submitted?_below hl' (ht.ancestors_eq hx ▸ hlx)]
    · rw [ht.own.submitted?_above hl hxl,
        ht.own'.submitted?_above hl' (ht.ancestors_eq hmem ▸ hxl), h.replayCursor_eq hx]
  · have htouch' := mt (h.symm.touches_of_touches ht.symm hx) htouch
    rw [ht.own.submitted?_elsewhere htouch, ht.own'.submitted?_elsewhere htouch']

/-- If all ids of one query are among the ids on which two queries agree, the other one asks
for something whenever that one does: for the same among these ids, with the same leaves. -/
theorem asking (h : r.AgreeOn ids r') (ht : t.AgreeOn ids t') (hids : ∀ x ∈ t'.shape.ids, x ∈ ids)
    {leaves' : List QueryId} {q' : Request} (ho : t'.opening r' = .asking leaves' q') :
    ∃ leaves q, t.opening r = .asking leaves q ∧ q.AgreeOn ids q' ∧
      ∀ x ∈ ids, x ∈ leaves ↔ x ∈ leaves' := by
  rcases Traversal.opening_eq_asking ho with ⟨hn, rfl, rfl⟩ | ⟨hn, rfl, rfl⟩
  · refine ⟨[], .full t.shape, ?_, ⟨ht.parameters, fun x hx => ?_⟩, fun _ _ => Iff.rfl⟩
    · rw [← h.isNew] at hn
      simp [Traversal.opening, finished, hn]
    · unfold Request.full
      rw [OrderedMap.get?_mapValues, OrderedMap.get?_mapValues, ht.subQuery x hx]
  · obtain ⟨l, hl'⟩ := List.exists_mem_of_ne_nil _ (Traversal.leaves_ne_nil_of_asking ho hn)
    have hmem : l ∈ ids := hids l (ht.own'.ids_eq ▸ (ht.own'.mem_leaves.1 hl').1)
    have hl := (h.mem_leaves_iff ht hmem).2 hl'
    have hf : r.finished = false :=
      finished_eq_false_of_mem ((r.isEligible_iff l).1 (isEligible_of_mem_leaves hl)).2
    have hq := Traversal.opening_of_leaves (h.isNew.trans hn) hf (List.ne_nil_of_mem hl)
    refine ⟨_, _, hq, ⟨ht.parameters, fun x hx => ?_⟩, fun x hx => h.mem_leaves_iff ht hx⟩
    rw [Traversal.queries_of_asking hq, Traversal.queries_of_asking ho, OrderedMap.get?_filterMap,
      OrderedMap.get?_filterMap, ht.subQuery x hx, h.submitted?_advancing ht hx]

end Round.AgreeOn

/-! ## Replies and sessions -/

/-- Two replies have the same items and the same cursors for some ids; no cursor and an
explicit none are the same. -/
structure Reply.AgreeOn (ids : Set QueryId) (a b : Reply) : Prop where
  items : ∀ x ∈ ids, a.items.get? x = b.items.get? x
  cursors : ∀ x ∈ ids, (a.nextCursors.get? x).join = (b.nextCursors.get? x).join

theorem Reply.get?_listItems {reply : Reply} {items : Items} (h : reply.listItems = .ok items)
    (x : QueryId) : items.get? x = (reply.items.get? x).map fun v => v.elements?.getD [] := by
  unfold listItems at h
  split at h
  · cases h
  · cases h
    exact OrderedMap.get?_mapValues _ _ x

/-- Items listed from replies that agree are the same. -/
theorem Reply.AgreeOn.get?_listItems {a b : Reply} (h : a.AgreeOn ids b) {items items' : Items}
    (ha : a.listItems = .ok items) (hb : b.listItems = .ok items') (hx : x ∈ ids) :
    items.get? x = items'.get? x := by
  rw [Reply.get?_listItems ha, Reply.get?_listItems hb, h.items x hx]

/-- Two sessions have run as many rounds, and their queries and rounds agree on some ids. -/
structure Session.AgreeOn (ids : Set QueryId) (s s' : Session) : Prop where
  traversal : s.traversal.AgreeOn ids s'.traversal
  round : s.round.AgreeOn ids s'.round
  roundsRun : s.roundsRun = s'.roundsRun

namespace Session.AgreeOn

variable {s s' : Session}

theorem start {t t' : Traversal} (ht : t.AgreeOn ids t') (excluded : IdSet) :
    (Session.start t excluded).AgreeOn ids (Session.start t' excluded) :=
  ⟨ht, .refl _, rfl⟩

/-- Answers that agree lead to sessions that agree. -/
theorem proceed (h : s.AgreeOn ids s') {reply reply' : Reply} (hr : reply.AgreeOn ids reply') :
    (s.proceed reply).AgreeOn ids (s'.proceed reply') :=
  ⟨h.traversal, h.round.advance h.traversal hr.cursors, congrArg (· + 1) h.roundsRun⟩

/-- Ending both keeps the agreement. -/
theorem ended (h : s.AgreeOn ids s') : s.ended.AgreeOn ids s'.ended :=
  ⟨h.traversal, h.round.finish, congrArg (· + 1) h.roundsRun⟩

end Session.AgreeOn

/-! ## Services that answer each sub-query on its own -/

/-- The reply of a service that has an answer of its own to each sub-query: a list of items
and a cursor, if there is a next page. -/
def Request.replyEach (page : QueryId → Requested → List Json × Option Cursor) (q : Request) :
    Reply where
  items := q.queries.mapValues fun x r => .arr (page x r).1
  nextCursors := q.queries.filterMap fun x r => (page x r).2.map some

/-- Two pages of every sub-query, each with one item. -/
def twoPagesEach (x : QueryId) (r : Requested) : List Json × Option Cursor :=
  match r.cursor with
  | none => ([.str x], some (.ofText "1"))
  | some _ => ([.str x], none)

/-- Requests that agree on some ids are answered with replies that agree on them. -/
theorem Request.AgreeOn.replyEach {q q' : Request} (h : q.AgreeOn ids q')
    (page : QueryId → Requested → List Json × Option Cursor) :
    (q.replyEach page).AgreeOn ids (q'.replyEach page) where
  items x hx := by
    simp only [Request.replyEach, OrderedMap.get?_mapValues, h.queries x hx]
  cursors x hx := by
    simp only [Request.replyEach, OrderedMap.get?_filterMap, h.queries x hx]

end ForestPager
