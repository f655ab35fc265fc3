import ForestPager.Proofs.Agreement
import ForestPager.Proofs.RequestedShape

/-!
# Some trees of a query

Ids that no link leads into or out of are some trees of the forest. The query narrowed to them
is a query whose forest is made of these trees, walked in the same order. Where its round agrees
with that of the whole query, its leaves and its request are those of the whole, narrowed.

Results:

* `Traversal.Own.own_part`, `Traversal.Own.agreeOn_part`: some trees of a query are a query.
* `Traversal.Own.walk_part`: they are walked in the same order.
* `Traversal.Own.leaves_part`: they have the same leaves.
* `Traversal.Own.asking_part`: the whole asks for something if they do.
-/

namespace ForestPager

variable {t : Traversal} {ids : List QueryId} {x : QueryId}

/-! ## Some trees of a query -/

/-- The query narrowed to some ids, with the forest of these. -/
def Traversal.part (t : Traversal) (ids : List QueryId) : Traversal :=
  ⟨t.shape.part ids, (t.shape.part ids).dependencies.link⟩

theorem Traversal.queries_part (t : Traversal) (ids : List QueryId) :
    (t.part ids).shape.queries = t.shape.queries.filterKeys ids.contains := rfl

/-- Ids of a query that no link leads into or out of: some trees of its forest. -/
structure Traversal.Encloses (t : Traversal) (ids : List QueryId) : Prop where
  subset : ∀ x ∈ ids, x ∈ t.shape.ids
  linked : ∀ x y, t.forest.parent? y = some x → (x ∈ ids ↔ y ∈ ids)

theorem Shape.mem_ids_part (s : Shape) (ids : List QueryId) :
    x ∈ (s.part ids).ids ↔ x ∈ s.ids ∧ x ∈ ids := by
  unfold part subset Shape.ids
  rw [OrderedMap.keys_filterKeys, List.mem_filter, List.contains_iff_mem]

theorem Shape.get?_part (s : Shape) (hx : x ∈ ids) :
    (s.part ids).queries.get? x = s.queries.get? x := by
  unfold part subset
  rw [OrderedMap.get?_filterKeys, if_pos (List.contains_iff_mem.2 hx)]

namespace Traversal.Own

/-- Some trees of a query are a query. -/
theorem own_part (ht : t.Own) (he : t.Encloses ids) : (t.part ids).Own := by
  have hclosed : ∀ x y, ids.contains x = true → t.shape.dependencies.get? x = some (some y) →
      ids.contains y = true := by
    intro x y hx hy
    rw [List.contains_iff_mem] at hx ⊢
    refine (he.linked y x ?_).2 hx
    rw [← ht.link_eq, Forest.parent?_link, hy]
    rfl
  unfold Own part Shape.forest
  rw [Shape.dependencies_part]
  exact Forest.ofDependencies_filterKeys ht hclosed

theorem ofShape_eq (ht : t.Own) : ofShape t.shape = .ok t := by
  unfold ofShape
  rw [show t.shape.forest = .ok t.forest from ht]
  rfl

/-- It agrees with the whole on its ids. -/
theorem agreeOn_part (ht : t.Own) (he : t.Encloses ids) :
    t.AgreeOn {x | x ∈ ids} (t.part ids) where
  own := ht
  own' := ht.own_part he
  parameters := rfl
  subQuery x hx := (t.shape.get?_part hx).symm
  linked := he.linked
  linked' x y hp := by
    have hy : y ∈ ids := by
      have hmem := Forest.mem_ids_of_parent hp
      rw [(ht.own_part he).ids_eq] at hmem
      exact ((t.shape.mem_ids_part ids).1 hmem).2
    refine he.linked x y ?_
    rw [(ht.own_part he).parent?_eq] at hp
    rw [ht.parent?_eq, ← t.shape.get?_part hy]
    exact hp

end Traversal.Own

/-! ## The order of the walk -/

namespace Forest

theorem childrenOf_filterKeys (deps : Dependencies) (hc : ∀ c ∈ deps.childrenOf x, c ∈ ids) :
    Dependencies.childrenOf (deps.filterKeys ids.contains) x = deps.childrenOf x := by
  unfold Dependencies.childrenOf
  rw [OrderedMap.entries_filterKeys, List.filter_filter]
  congr 1
  refine List.filter_congr fun e he => ?_
  cases hp : decide (e.2 = some x) with
  | false => rfl
  | true =>
    refine List.contains_iff_mem.2 (hc e.1 (List.mem_map_of_mem (List.mem_filter.2 ⟨he, hp⟩)))

end Forest

namespace Traversal.Own

theorem roots_part (ht : t.Own) (ids : List QueryId) :
    (t.part ids).forest.roots = t.forest.roots.filter ids.contains := by
  rw [← ht.link_eq]
  show Dependencies.roots _ = List.filter _ (Dependencies.roots _)
  unfold Dependencies.roots
  rw [Shape.dependencies_part, OrderedMap.entries_filterKeys, List.filter_filter, List.filter_map,
    List.filter_filter]
  congr 1
  refine List.filter_congr fun e _ => ?_
  exact Bool.and_comm _ _

/-- The children are the same, in the same order. -/
theorem children_part (ht : t.Own) (he : t.Encloses ids) (hx : x ∈ ids) :
    (t.part ids).forest.children x = t.forest.children x := by
  have hkeys : x ∈ t.shape.dependencies.keys := by
    rw [Shape.keys_dependencies]
    exact he.subset x hx
  have hchildren : t.forest.children x = t.shape.dependencies.childrenOf x := by
    rw [← ht.link_eq]
    exact Forest.children_link hkeys
  have hkeys' : x ∈ (t.shape.part ids).dependencies.keys := by
    rw [Shape.keys_dependencies]
    exact (t.shape.mem_ids_part ids).2 ⟨he.subset x hx, hx⟩
  rw [hchildren]
  show (t.shape.part ids).dependencies.link.children x = _
  rw [Forest.children_link hkeys', Shape.dependencies_part]
  refine Forest.childrenOf_filterKeys _ fun c hc => ?_
  rw [← hchildren, ht.sound.mem_children] at hc
  exact (he.linked x c hc).1 hx

/-- What is below an id is the same, in the same order. -/
theorem descendants_part (ht : t.Own) (he : t.Encloses ids) (hx : x ∈ ids) :
    (t.part ids).forest.descendants x = t.forest.descendants x := by
  have hmem : x ∈ t.forest.ids := by
    rw [ht.ids_eq]
    exact he.subset x hx
  induction x, hmem using ht.sound.induction_down with
  | step x _ ih =>
    rw [(ht.own_part he).sound.descendants_eq, ht.sound.descendants_eq, ht.children_part he hx]
    refine List.flatMap_congr fun c hc => ?_
    have hparent := (ht.sound.mem_children x c).1 hc
    rw [ih c (ht.sound.mem_ancestors_of_mem_children hc) ((he.linked x c hparent).1 hx)]

/-- The walk of some trees is the walk of all trees, narrowed. -/
theorem walk_part (ht : t.Own) (he : t.Encloses ids) :
    (t.part ids).forest.walk = t.forest.walk.filter ids.contains := by
  have hagree := ht.agreeOn_part he
  unfold Forest.walk
  rw [ht.roots_part, List.filter_flatMap]
  induction t.forest.roots with
  | nil => rfl
  | cons r roots ih =>
    rw [List.flatMap_cons, List.filter_cons, ← ih]
    have hbelow : ∀ y ∈ t.forest.descendants r, (r ∈ ids ↔ y ∈ ids) := fun y hy =>
      hagree.mem_iff_of_mem_ancestors (ht.sound.mem_descendants.1 hy)
    by_cases hr : r ∈ ids
    · have htree : (r :: t.forest.descendants r).filter ids.contains =
          r :: t.forest.descendants r := by
        refine List.filter_eq_self.2 (List.forall_mem_cons.2 ⟨by simpa using hr, fun y hy => ?_⟩)
        simpa using (hbelow y hy).1 hr
      rw [if_pos (by simpa using hr), List.flatMap_cons, htree, ht.descendants_part he hr]
    · have htree : (r :: t.forest.descendants r).filter ids.contains = [] := by
        refine List.filter_eq_nil_iff.2 (List.forall_mem_cons.2 ⟨by simpa using hr, fun y hy => ?_⟩)
        simpa using mt (hbelow y hy).2 hr
      rw [if_neg (by simpa using hr), htree, List.nil_append]

/-! ## What is asked for, narrowed -/

variable {r r' : Round} {leaves leaves' : List QueryId} {q q' : Request}

theorem mem_ids_of_mem_part (ht : t.Own) (he : t.Encloses ids)
    (hx : x ∈ (t.part ids).forest.ids) : x ∈ t.forest.ids ∧ x ∈ ids := by
  rw [(ht.own_part he).ids_eq] at hx
  rw [ht.ids_eq]
  exact (t.shape.mem_ids_part ids).1 hx

/-- The leaves of some trees are those of all trees, narrowed. -/
theorem leaves_part (ht : t.Own) (he : t.Encloses ids) (hr : r.AgreeOn {x | x ∈ ids} r') :
    r'.leaves (t.part ids).forest (t.part ids).within =
      (r.leaves t.forest t.within).filter ids.contains := by
  rw [(ht.own_part he).sound.leaves_eq, ht.sound.leaves_eq, List.filter_comm, ← ht.walk_part he]
  refine List.filter_congr fun x hx => decide_eq_decide.2 ?_
  rw [(ht.own_part he).sound.mem_walk] at hx
  obtain ⟨hmem, hids⟩ := ht.mem_ids_of_mem_part he hx
  have hiff := hr.mem_leaves_iff (ht.agreeOn_part he) hids
  rw [ht.sound.mem_leaves, (ht.own_part he).sound.mem_leaves, and_iff_right hmem,
    and_iff_right hx] at hiff
  exact hiff.symm

/-- If some trees ask for something, so do all trees: narrowed to these ids it is the same, in
the same order, and so are the leaves. -/
theorem asking_part (ht : t.Own) (he : t.Encloses ids) (hr : r.AgreeOn {x | x ∈ ids} r')
    (ho : (t.part ids).opening r' = .asking leaves' q') :
    ∃ leaves q, t.opening r = .asking leaves q ∧ q.AgreeOn {x | x ∈ ids} q' ∧
      q.queries.filterKeys ids.contains = q'.queries ∧ leaves.filter ids.contains = leaves' := by
  have hids : ∀ x ∈ (t.part ids).shape.ids, x ∈ ids := fun x hx =>
    ((t.shape.mem_ids_part ids).1 hx).2
  obtain ⟨leaves, q, hq, hagree, -⟩ := hr.asking (ht.agreeOn_part he) hids ho
  refine ⟨leaves, q, hq, hagree, ?_, ?_⟩
  · rw [queries_of_asking hq, queries_of_asking ho, queries_part,
      OrderedMap.filterKeys_filterMap, OrderedMap.filterMap_filterKeys]
    refine OrderedMap.filterMap_congr fun e _ => ?_
    by_cases hx : e.1 ∈ ids
    · rw [hagree.submitted?_eq hx]
    · rw [if_neg (by simpa using hx), if_neg (by simpa using hx)]
  · rcases opening_eq_asking hq with ⟨hn, rfl, -⟩ | ⟨hn, rfl, -⟩
    · rcases opening_eq_asking ho with ⟨-, rfl, -⟩ | ⟨hn', -, -⟩
      · rfl
      · rw [hr.isNew, hn'] at hn
        cases hn
    · rcases opening_eq_asking ho with ⟨hn', -, -⟩ | ⟨-, rfl, -⟩
      · rw [hr.isNew, hn'] at hn
        cases hn
      · exact (ht.leaves_part he hr).symm

end Traversal.Own

end ForestPager
