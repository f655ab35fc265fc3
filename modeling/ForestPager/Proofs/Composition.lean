import ForestPager.Traversal
import ForestPager.Proofs.Selection

/-!
# What a request asks for

The ids around a leaf come from three places: the leaf itself, what is below it and
what is above it. No leaf of a round is above another, so these are three roles and
an id has at most one of them, whichever leaf gives it: the order of the leaves does
not matter. From this follows what a request submits for each id.

Results:

* `Request.get?_assignedCursors_leaf`, `_below`, `_above`, `_elsewhere`: one role, one cursor.
* `Request.one_role_each`: the request that advances the leaves of a round, in any order.
* `Traversal.Own.mem_leaves`: the leaves are the deepest ids that may be advanced.
* `Traversal.Own.submitted?_leaf`, `_below`, `_above`, `_elsewhere`: the request of a
  round, role by role.
-/

namespace ForestPager

/-- The shape of sub-queries of which only the links are given. -/
def Shape.ofLinks (links : List (QueryId × Option QueryId)) : Shape where
  queries := .ofList (links.map fun e => (e.1, { source := e.2 }))

variable {f : Forest} {r : Round} {leaves : List QueryId} {x l : QueryId}

/-- The forest of a query has the ids of the query. -/
theorem Shape.ids_forest {s : Shape} (h : s.forest = .ok f) : f.ids = s.ids := by
  obtain ⟨-, -, rfl⟩ := Forest.ofDependencies_eq_ok.1 h
  rw [Forest.ids_link, keys_dependencies]

namespace Request

/-! ## The three roles around a leaf -/

/-- Leaves none of which is above another. -/
def Apart (f : Forest) (leaves : List QueryId) : Prop :=
  ∀ l ∈ leaves, ∀ m ∈ leaves, l ∉ f.ancestors m

theorem Apart.mono {leaves' : List QueryId} (ha : Apart f leaves)
    (h : ∀ l ∈ leaves', l ∈ leaves) : Apart f leaves' :=
  fun l hl m hm => ha l (h l hl) m (h m hm)

/-- The leaves of a round are apart, whatever the search is kept from. -/
theorem apart_leaves (hf : f.Sound) (r : Round) (within : QueryId → Bool) :
    Apart f (r.leaves f within) := fun _ hl _ hm =>
  hf.not_mem_ancestors_of_leaf (hf.mem_leaves.1 hl).2 (hf.mem_leaves.1 hm).2

theorem mem_leafCursors (hf : f.Sound) {c : Option Cursor} :
    (x, c) ∈ leafCursors f r l ↔
      (x = l ∧ c = (r.cursors.get? l).join) ∨ (l ∈ f.ancestors x ∧ c = none) ∨
        (x ∈ f.ancestors l ∧ c = r.replayCursor x) := by
  simp only [leafCursors, List.cons_append, List.mem_cons, List.mem_append, List.mem_map,
    Prod.mk.injEq, hf.mem_descendants]
  grind

theorem get?_assignedCursors_leaf (hf : f.Sound) (ha : Apart f leaves) (hl : l ∈ leaves) :
    (assignedCursors f r leaves).get? l = some (r.cursors.get? l).join := by
  refine OrderedMap.get?_ofList_of_forall ?_ fun c hc => ?_
  · exact List.mem_map.2 ⟨(l, _), List.mem_flatMap.2 ⟨l, hl, List.mem_cons_self⟩, rfl⟩
  · obtain ⟨m, hm, hc⟩ := List.mem_flatMap.1 hc
    rcases (mem_leafCursors hf).1 hc with ⟨rfl, rfl⟩ | ⟨h, -⟩ | ⟨h, -⟩
    · rfl
    · exact absurd h (ha m hm l hl)
    · exact absurd h (ha l hl m hm)

theorem get?_assignedCursors_below (hf : f.Sound) (ha : Apart f leaves) (hl : l ∈ leaves)
    (hx : l ∈ f.ancestors x) : (assignedCursors f r leaves).get? x = some none := by
  refine OrderedMap.get?_ofList_of_forall ?_ fun c hc => ?_
  · exact List.mem_map.2 ⟨(x, none),
      List.mem_flatMap.2 ⟨l, hl, (mem_leafCursors hf).2 (.inr (.inl ⟨hx, rfl⟩))⟩, rfl⟩
  · obtain ⟨m, hm, hc⟩ := List.mem_flatMap.1 hc
    rcases (mem_leafCursors hf).1 hc with ⟨rfl, -⟩ | ⟨-, rfl⟩ | ⟨h, -⟩
    · exact absurd hx (ha l hl x hm)
    · rfl
    · exact absurd (hf.ancestors_trans hx h) (ha l hl m hm)

theorem get?_assignedCursors_above (hf : f.Sound) (ha : Apart f leaves) (hl : l ∈ leaves)
    (hx : x ∈ f.ancestors l) : (assignedCursors f r leaves).get? x = some (r.replayCursor x) := by
  refine OrderedMap.get?_ofList_of_forall ?_ fun c hc => ?_
  · exact List.mem_map.2 ⟨(x, r.replayCursor x),
      List.mem_flatMap.2 ⟨l, hl, (mem_leafCursors hf).2 (.inr (.inr ⟨hx, rfl⟩))⟩, rfl⟩
  · obtain ⟨m, hm, hc⟩ := List.mem_flatMap.1 hc
    rcases (mem_leafCursors hf).1 hc with ⟨rfl, -⟩ | ⟨h, -⟩ | ⟨-, rfl⟩
    · exact absurd hx (ha x hm l hl)
    · exact absurd (hf.ancestors_trans h hx) (ha m hm l hl)
    · rfl

/-- Whether a list of leaves touches an id. -/
def Touches (f : Forest) (leaves : List QueryId) (x : QueryId) : Prop :=
  ∃ l ∈ leaves, x = l ∨ l ∈ f.ancestors x ∨ x ∈ f.ancestors l

theorem get?_assignedCursors_elsewhere (hf : f.Sound) (hx : ¬ Touches f leaves x) :
    (assignedCursors f r leaves).get? x = none := by
  rw [OrderedMap.get?_eq_none_iff, mem_keys_assignedCursors]
  simp only [hf.mem_descendants]
  exact hx

/-! ## What is submitted -/

/-- The cursor with which a request asks for an id, itself possibly none; nothing when
it does not ask for the id. -/
def submitted? (q : Request) (x : QueryId) : Option (Option Cursor) :=
  (q.queries.get? x).map (·.cursor)

theorem mem_ids_iff (q : Request) : x ∈ q.ids ↔ ∃ c, q.submitted? x = some c := by
  rw [ids, OrderedMap.mem_keys_iff, submitted?]
  cases q.queries.get? x <;> simp

theorem submitted?_full (s : Shape) (hx : x ∈ s.ids) : (full s).submitted? x = some none := by
  obtain ⟨q, hq⟩ := (s.queries.mem_keys_iff x).1 hx
  simp [submitted?, full, OrderedMap.get?_mapValues, hq]

theorem submitted?_advancing (s : Shape) (hx : x ∈ s.ids) :
    (advancing f s r leaves).submitted? x = (assignedCursors f r leaves).get? x := by
  obtain ⟨q, hq⟩ := (s.queries.mem_keys_iff x).1 hx
  rw [submitted?, advancing, OrderedMap.get?_filterMap, hq]
  cases (assignedCursors f r leaves).get? x <;> rfl

/-! ## One role for each id -/

/-- Below one of some leaves. -/
def IsBelow (f : Forest) (leaves : List QueryId) (x : QueryId) : Prop :=
  ∃ l ∈ leaves, x ∈ f.descendants l

instance (f : Forest) (leaves : List QueryId) (x : QueryId) : Decidable (IsBelow f leaves x) :=
  inferInstanceAs (Decidable (∃ l ∈ leaves, x ∈ f.descendants l))

/-- Above one of some leaves. -/
def IsAbove (f : Forest) (leaves : List QueryId) (x : QueryId) : Prop :=
  ∃ l ∈ leaves, x ∈ f.ancestors l

instance (f : Forest) (leaves : List QueryId) (x : QueryId) : Decidable (IsAbove f leaves x) :=
  inferInstanceAs (Decidable (∃ l ∈ leaves, x ∈ f.ancestors l))

/-- An id has at most one role. -/
theorem Apart.not_two_roles (hf : f.Sound) (ha : Apart f leaves) (x : QueryId) :
    ¬ (x ∈ leaves ∧ IsBelow f leaves x) ∧ ¬ (x ∈ leaves ∧ IsAbove f leaves x) ∧
      ¬ (IsBelow f leaves x ∧ IsAbove f leaves x) := by
  refine ⟨?_, ?_, ?_⟩
  · rintro ⟨hx, l, hl, hlx⟩
    exact ha l hl x hx (hf.mem_descendants.1 hlx)
  · rintro ⟨hx, l, hl, hxl⟩
    exact ha x hx l hl hxl
  · rintro ⟨⟨l, hl, hlx⟩, m, hm, hxm⟩
    exact ha l hl m hm (hf.ancestors_trans (hf.mem_descendants.1 hlx) hxm)

/-- Leaves that the round lists and the forest has can be advanced. -/
theorem compose_eq_ok (s : Shape) (h : ∀ l ∈ leaves, l ∈ r.cursors.keys ∧ l ∈ f.ids) :
    compose f s r leaves = .ok (advancing f s r leaves) := by
  have hnone : (leaves.find? fun x => !(r.cursors.contains x && f.contains x)) = none := by
    rw [List.find?_eq_none]
    intro l hl
    obtain ⟨hcursor, hid⟩ := h l hl
    simp [(r.cursors.contains_iff l).2 hcursor, (f.contains_iff l).2 hid]
  rw [compose, hnone]

theorem get?_advancing {s : Shape} {sub : SubQuery} {c : Option Cursor}
    (hx : s.queries.get? x = some sub) (hc : (assignedCursors f r leaves).get? x = some c) :
    (advancing f s r leaves).queries.get? x = some ⟨sub, c⟩ := by
  rw [advancing, OrderedMap.get?_filterMap, hx, Option.bind_some, hc, Option.map_some]

theorem ids_advancing_sublist (f : Forest) (s : Shape) (r : Round) (leaves : List QueryId) :
    (advancing f s r leaves).ids.Sublist s.ids :=
  OrderedMap.sublist_keys_filterMap _ s.queries

/-- In a forest with all ids of the query a request names just what its leaves touch. -/
theorem mem_ids_advancing_iff_role (hf : f.Sound) {s : Shape} (hids : f.ids = s.ids)
    (hleaves : ∀ l ∈ leaves, l ∈ f.ids) :
    x ∈ (advancing f s r leaves).ids ↔ x ∈ leaves ∨ IsBelow f leaves x ∨ IsAbove f leaves x := by
  rw [mem_ids_advancing_iff, ← hids]
  constructor
  · rintro ⟨-, l, hl, rfl | hx | hx⟩
    · exact .inl hl
    · exact .inr (.inl ⟨l, hl, hx⟩)
    · exact .inr (.inr ⟨l, hl, hx⟩)
  · rintro (hx | ⟨l, hl, hx⟩ | ⟨l, hl, hx⟩)
    · exact ⟨hleaves x hx, x, hx, .inl rfl⟩
    · exact ⟨(hf.mem_ids_of_mem_ancestors (hf.mem_descendants.1 hx)).2, l, hl, .inr (.inl hx)⟩
    · exact ⟨(hf.mem_ids_of_mem_ancestors hx).1, l, hl, .inr (.inr hx)⟩

/-- Every id has one role in the request of a round, in whatever order and however often the
leaves are listed. The leaves of a round that is not finished can be advanced, and the request
names, in declaration order, the leaves, what is below a leaf and what is above a leaf; no id is
two of these. A leaf goes on at the cursor that the round lists for it, what is below a leaf
starts over, and what is above a leaf is repeated with its earlier cursor, if it had one and is
not excluded. -/
theorem one_role_each {s : Shape} (hs : s.forest = .ok f) (hr : r.finished = false)
    (within : QueryId → Bool) :
    ∃ selected, r.selectLeaves f within = .ok selected ∧
      ∀ leaves : List QueryId, (∀ x, x ∈ leaves ↔ x ∈ selected) →
        ∃ q, compose f s r leaves = .ok q ∧ q.parameters = s.parameters ∧
          q.ids.Sublist s.ids ∧
          (∀ x, x ∈ q.ids ↔ x ∈ leaves ∨ IsBelow f leaves x ∨ IsAbove f leaves x) ∧
          (∀ x, ¬ (x ∈ leaves ∧ IsBelow f leaves x) ∧ ¬ (x ∈ leaves ∧ IsAbove f leaves x) ∧
            ¬ (IsBelow f leaves x ∧ IsAbove f leaves x)) ∧
          ∀ x sub, s.queries.get? x = some sub →
            (x ∈ leaves →
              ∃ c, r.cursors.get? x = some c ∧ q.queries.get? x = some ⟨sub, c⟩) ∧
            (IsBelow f leaves x → q.queries.get? x = some ⟨sub, none⟩) ∧
            (IsAbove f leaves x → q.queries.get? x =
              some ⟨sub, if r.excluded.contains x then none else (r.earlier.get? x).join⟩) := by
  have hf := Forest.Sound.of_ofDependencies hs
  refine ⟨r.leaves f within, Round.selectLeaves_of_not_finished hr f within, ?_⟩
  intro leaves hleaves
  have hapart : Apart f leaves :=
    (apart_leaves hf r within).mono fun l hl => (hleaves l).1 hl
  have hlisted : ∀ l ∈ leaves, l ∈ r.cursors.keys ∧ l ∈ f.ids := by
    intro l hl
    obtain ⟨hid, hleaf⟩ := hf.mem_leaves.1 ((hleaves l).1 hl)
    exact ⟨((r.isEligible_iff l).1 hleaf.1.1).2, hid⟩
  refine ⟨advancing f s r leaves, compose_eq_ok s hlisted, rfl, ids_advancing_sublist f s r leaves,
    fun x => mem_ids_advancing_iff_role hf (Shape.ids_forest hs) fun l hl => (hlisted l hl).2,
    hapart.not_two_roles hf, ?_⟩
  intro x sub hx
  refine ⟨fun hl => ?_, ?_, ?_⟩
  · obtain ⟨c, hc⟩ := (r.cursors.mem_keys_iff x).1 (hlisted x hl).1
    have hassigned := get?_assignedCursors_leaf hf (r := r) hapart hl
    rw [hc, Option.join_some] at hassigned
    exact ⟨c, hc, get?_advancing hx hassigned⟩
  · rintro ⟨l, hl, hlx⟩
    exact get?_advancing hx (get?_assignedCursors_below hf hapart hl (hf.mem_descendants.1 hlx))
  · rintro ⟨l, hl, hxl⟩
    exact get?_advancing hx (get?_assignedCursors_above hf hapart hl hxl)

/-- The sub-queries of `Forest.scattered`. -/
def scatteredShape : Shape := .ofLinks Forest.scattered.entries

/-- A round in which `a` is on its third page and `b`, `c` and `f` are on their first. -/
def thirdPage : Round where
  isNew := false
  cursors := .ofList [("a", some (.ofText "3")), ("b", some (.ofText "1")),
    ("c", some (.ofText "1")), ("f", some (.ofText "1"))]
  earlier := .ofList [("a", some (.ofText "2"))]

/-- Advancing `c`, `b` and `c` again, where `f` is outside the working set: `c` goes on, `a` is
repeated, `d` starts over and `f` is left out. -/
theorem one_role_each_scattered :
    scatteredShape.forest = .ok Forest.scattered.link ∧ thirdPage.finished = false ∧
      thirdPage.selectLeaves Forest.scattered.link (fun x => x != "f") = .ok ["b", "c"] ∧
      ∃ q, compose Forest.scattered.link scatteredShape thirdPage ["c", "b", "c"] = .ok q ∧
        q.ids.Sublist scatteredShape.ids ∧
        q.queries.get? "c" = some ⟨{ source := some "a" }, some (.ofText "1")⟩ ∧
        q.queries.get? "a" = some ⟨{ source := none }, some (.ofText "2")⟩ ∧
        q.queries.get? "d" = some ⟨{ source := some "b" }, none⟩ ∧ "f" ∉ q.ids := by
  have hforest : scatteredShape.forest = .ok Forest.scattered.link := by decide +kernel
  have hgoes : thirdPage.finished = false := by decide +kernel
  have hbc : thirdPage.selectLeaves Forest.scattered.link (fun x => x != "f") =
      .ok ["b", "c"] := by decide +kernel
  obtain ⟨selected, hselected, hall⟩ := one_role_each hforest hgoes fun x => x != "f"
  obtain rfl : ["b", "c"] = selected := Except.ok.inj (hbc.symm.trans hselected)
  obtain ⟨q, hq, -, hsub, hids, -, hroles⟩ := hall ["c", "b", "c"] (by simp [or_comm])
  refine ⟨hforest, hgoes, hbc, q, hq, hsub, ?_, ?_, ?_, ?_⟩
  · obtain ⟨c, hc, hget⟩ := (hroles "c" { source := some "a" } (by decide +kernel)).1 (by simp)
    have hone : thirdPage.cursors.get? "c" = some (some (.ofText "1")) := by decide +kernel
    obtain rfl := Option.some.inj (hc.symm.trans hone)
    exact hget
  · exact (hroles "a" { source := none } (by decide +kernel)).2.2 (by decide +kernel)
  · exact (hroles "d" { source := some "b" } (by decide +kernel)).2.1 (by decide +kernel)
  · rw [hids "f"]
    decide +kernel

end Request

/-! ## Traversals of a shape's own forest -/

namespace Traversal

/-- The traversal of sub-queries of which only the links are given. -/
def ofLinks (links : List (QueryId × Option QueryId)) : Traversal where
  shape := .ofLinks links
  forest := (Shape.ofLinks links).dependencies.link

/-- The forest of the traversal is that of its own sub-queries. -/
def Own (t : Traversal) : Prop := t.shape.forest = .ok t.forest

theorem own_of_ofShape {s : Shape} {t : Traversal} (h : ofShape s = .ok t) :
    t.Own ∧ t.shape = s := by
  rw [ofShape] at h
  cases hf : s.forest with
  | error d => simp [hf, Except.map] at h
  | ok f =>
    simp only [hf, Except.map, Except.ok.injEq] at h
    subst h
    exact ⟨hf, rfl⟩

namespace Own

variable {t : Traversal}

theorem sound (ht : t.Own) : t.forest.Sound := Forest.Sound.of_ofDependencies ht

theorem link_eq (ht : t.Own) : t.shape.dependencies.link = t.forest :=
  (Forest.ofDependencies_eq_ok.1 ht).2.2

theorem ids_eq (ht : t.Own) : t.forest.ids = t.shape.ids := Shape.ids_forest ht

/-- What an id continues from is what its sub-query says. -/
theorem parent?_eq (ht : t.Own) (x : QueryId) :
    t.forest.parent? x = (t.shape.queries.get? x).bind (·.source) := by
  rw [← ht.link_eq, Forest.parent?_link, Shape.dependencies, OrderedMap.get?_mapValues]
  cases t.shape.queries.get? x <;> rfl

theorem within_iff (ht : t.Own) : t.within x = true ↔ x ∈ t.forest.ids := by
  rw [ht.ids_eq]
  exact t.shape.queries.contains_iff x

theorem selectable_iff (ht : t.Own) (hx : x ∈ t.forest.ids) {eligible : QueryId → Bool} :
    t.forest.Selectable t.within eligible x ↔ eligible x = true := by
  refine and_iff_left fun a ha => ht.within_iff.2 ?_
  rcases List.mem_cons.1 ha with rfl | ha
  · exact hx
  · exact (ht.sound.mem_ids_of_mem_ancestors ha).1

/-- The leaves are the ids that may be advanced and have none such below them. -/
theorem mem_leaves (ht : t.Own) :
    x ∈ r.leaves t.forest t.within ↔
      x ∈ t.forest.ids ∧ r.isEligible x = true ∧
        ∀ y, x ∈ t.forest.ancestors y → r.isEligible y = false := by
  rw [ht.sound.mem_leaves]
  refine and_congr_right fun hx => ?_
  rw [Forest.IsLeaf, ht.selectable_iff hx]
  refine and_congr_right fun _ => forall_congr' fun y => ?_
  rw [ht.sound.mem_descendants]
  refine forall_congr' fun hy => ?_
  rw [ht.selectable_iff (ht.sound.mem_ids_of_mem_ancestors hy).2, Bool.not_eq_true]

/-- An id that may be advanced is a leaf or has a leaf below it. -/
theorem exists_leaf (ht : t.Own) (hx : x ∈ t.forest.ids) (he : r.isEligible x = true) :
    ∃ l ∈ r.leaves t.forest t.within, l = x ∨ x ∈ t.forest.ancestors l := by
  obtain ⟨l, hl, hleaf⟩ := ht.sound.exists_leaf hx ((ht.selectable_iff hx).2 he)
  refine ⟨l, ht.sound.mem_leaves.2 ⟨?_, hleaf⟩, hl⟩
  rcases hl with rfl | hl
  · exact hx
  · exact (ht.sound.mem_ids_of_mem_ancestors hl).2

theorem leaves_eq_nil_iff (ht : t.Own) :
    r.leaves t.forest t.within = [] ↔ ∀ x ∈ t.forest.ids, r.isEligible x = false := by
  constructor
  · intro h x hx
    by_contra he
    obtain ⟨l, hl, -⟩ := ht.exists_leaf hx (Bool.not_eq_false _ ▸ he)
    simp [h] at hl
  · intro h
    refine List.eq_nil_iff_forall_not_mem.2 fun l hl => ?_
    obtain ⟨hx, he, -⟩ := ht.mem_leaves.1 hl
    simp [h l hx] at he

theorem apart_leaves (ht : t.Own) : Request.Apart t.forest (r.leaves t.forest t.within) :=
  Request.apart_leaves ht.sound r t.within

/-! ## The request of a round, role by role -/

variable (ht : t.Own)
include ht

theorem submitted?_leaf (hl : l ∈ r.leaves t.forest t.within) :
    (Request.advancing t.forest t.shape r (r.leaves t.forest t.within)).submitted? l =
      some (r.cursors.get? l).join := by
  rw [Request.submitted?_advancing _ (ht.ids_eq ▸ (ht.mem_leaves.1 hl).1)]
  exact Request.get?_assignedCursors_leaf ht.sound ht.apart_leaves hl

theorem submitted?_below (hl : l ∈ r.leaves t.forest t.within) (hx : l ∈ t.forest.ancestors x) :
    (Request.advancing t.forest t.shape r (r.leaves t.forest t.within)).submitted? x =
      some none := by
  rw [Request.submitted?_advancing _ (ht.ids_eq ▸ (ht.sound.mem_ids_of_mem_ancestors hx).2)]
  exact Request.get?_assignedCursors_below ht.sound ht.apart_leaves hl hx

theorem submitted?_above (hl : l ∈ r.leaves t.forest t.within) (hx : x ∈ t.forest.ancestors l) :
    (Request.advancing t.forest t.shape r (r.leaves t.forest t.within)).submitted? x =
      some (r.replayCursor x) := by
  rw [Request.submitted?_advancing _ (ht.ids_eq ▸ (ht.sound.mem_ids_of_mem_ancestors hx).1)]
  exact Request.get?_assignedCursors_above ht.sound ht.apart_leaves hl hx

theorem submitted?_elsewhere (hx : ¬ Request.Touches t.forest (r.leaves t.forest t.within) x) :
    (Request.advancing t.forest t.shape r (r.leaves t.forest t.within)).submitted? x = none := by
  have hnone := Request.get?_assignedCursors_elsewhere (r := r) ht.sound hx
  rw [Request.submitted?, Request.advancing, OrderedMap.get?_filterMap]
  cases hq : t.shape.queries.get? x with
  | none => rfl
  | some q => simp [hnone]

end Own

end Traversal

end ForestPager
