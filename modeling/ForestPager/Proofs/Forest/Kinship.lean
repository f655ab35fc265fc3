import ForestPager.Proofs.Forest.Preorder
import Mathlib.Data.List.Chain

/-!
# How the queries of a forest agree

A forest can be asked for what is above an id, for the root of its tree and for what is below
it. The first is found by going from parent to parent, the last by a walk down the lists of
children; each knows one of the two tables only. In a sound forest they speak of the same
trees: the chain above an id ends at the one root that has the id in its tree, and the trees
of the roots, one after the other, are the whole forest.

Results:

* `Sound.isChain_ancestors`: what is above an id is a chain of parents.
* `Sound.eq_rootOf_iff`: the root of an id is the only one on its path.
* `Sound.mem_walk`, `Sound.nodup_walk`: the trees of the roots hold every id, each once.
* `queries_agree`: the queries of a linked forest.
-/

namespace ForestPager.Forest

variable {f : Forest} {x y p r : QueryId}

/-! ## The root of a tree -/

/-- The root of an id is the id itself or above it. -/
theorem rootOf_mem_path (f : Forest) (x : QueryId) :
    f.rootOf x = x ∨ f.rootOf x ∈ f.ancestors x := by
  unfold rootOf
  cases h : (f.ancestors x).getLast? with
  | none => exact .inl rfl
  | some r => exact .inr (List.mem_of_getLast? h)

/-- The path from an id upward ends at its root. -/
theorem getLast?_path (f : Forest) (x : QueryId) :
    (x :: f.ancestors x).getLast? = some (f.rootOf x) := by
  rw [List.getLast?_cons, rootOf]

namespace Sound

/-- What is above an id is a chain of parents. -/
theorem isChain_ancestors (hf : f.Sound) (hx : x ∈ f.ids) :
    List.IsChain (fun a b => f.parent? a = some b) (x :: f.ancestors x) := by
  induction x, hx using hf.induction_up with
  | root x _ hr =>
    rw [ancestors_of_root hr]
    exact .singleton x
  | child x p hp ih =>
    rw [hf.ancestors_of_parent hp]
    exact .cons_cons hp ih

theorem nodup_path (hf : f.Sound) (x : QueryId) : (x :: f.ancestors x).Nodup :=
  List.nodup_cons.2 ⟨hf.not_mem_ancestors_self, hf.nodup_ancestors⟩

/-- An id and its parent have one root. -/
theorem rootOf_of_parent (hf : f.Sound) (h : f.parent? x = some p) : f.rootOf x = f.rootOf p := by
  rw [rootOf, hf.ancestors_of_parent h, List.getLast?_cons, Option.getD_some, rootOf]

theorem rootOf_mem_roots (hf : f.Sound) (hx : x ∈ f.ids) : f.rootOf x ∈ f.roots := by
  induction x, hx using hf.induction_up with
  | root x hx hr =>
    rw [rootOf_eq_self hr]
    exact (hf.mem_roots x).2 ⟨hx, hr⟩
  | child x p hp ih =>
    rw [hf.rootOf_of_parent hp]
    exact ih

theorem ancestors_of_mem_roots (hf : f.Sound) (hr : r ∈ f.roots) : f.ancestors r = [] :=
  ancestors_of_root ((hf.mem_roots r).1 hr).2

/-- The root of an id is the only one on its path. -/
theorem eq_rootOf_iff (hf : f.Sound) (hx : x ∈ f.ids) :
    r = f.rootOf x ↔ r ∈ f.roots ∧ (r = x ∨ r ∈ f.ancestors x) := by
  have hroot := hf.rootOf_mem_roots hx
  constructor
  · rintro rfl
    exact ⟨hroot, f.rootOf_mem_path x⟩
  · rintro ⟨hr, hpath⟩
    -- two ids on one path are above each other, and nothing is above a root
    rcases hf.path_linear (List.mem_cons.2 hpath) (List.mem_cons.2 (f.rootOf_mem_path x)) with
      h | h | h
    · exact h
    · rw [hf.ancestors_of_mem_roots hroot] at h
      exact absurd h List.not_mem_nil
    · rw [hf.ancestors_of_mem_roots hr] at h
      exact absurd h List.not_mem_nil

end Sound

/-! ## The trees of a forest in one list -/

/-- All ids, each root followed by what is below it. -/
def walk (f : Forest) : List QueryId := f.roots.flatMap fun r => r :: f.descendants r

namespace Sound

/-- The tree of a root holds the ids whose root it is. -/
theorem mem_tree_iff (hf : f.Sound) (hr : r ∈ f.roots) :
    x ∈ r :: f.descendants r ↔ x ∈ f.ids ∧ r = f.rootOf x := by
  rw [List.mem_cons, hf.mem_descendants]
  constructor
  · intro h
    have hx : x ∈ f.ids := by
      rcases h with rfl | h
      · exact ((hf.mem_roots x).1 hr).1
      · exact (hf.mem_ids_of_mem_ancestors h).2
    exact ⟨hx, (hf.eq_rootOf_iff hx).2 ⟨hr, h.imp_left Eq.symm⟩⟩
  · rintro ⟨hx, h⟩
    exact ((hf.eq_rootOf_iff hx).1 h).2.imp_left Eq.symm

theorem mem_walk (hf : f.Sound) : x ∈ f.walk ↔ x ∈ f.ids := by
  rw [walk, List.mem_flatMap]
  constructor
  · rintro ⟨r, hr, hx⟩
    exact ((hf.mem_tree_iff hr).1 hx).1
  · intro hx
    have hr := hf.rootOf_mem_roots hx
    exact ⟨f.rootOf x, hr, (hf.mem_tree_iff hr).2 ⟨hx, rfl⟩⟩

/-- No two trees share an id. -/
theorem nodup_walk (hf : f.Sound) : f.walk.Nodup := by
  rw [walk, List.nodup_flatMap]
  refine ⟨fun r _ => ?_, hf.nodup_roots.imp_of_mem fun {r s} hr hs hne => ?_⟩
  · refine List.nodup_cons.2 ⟨fun h => ?_, hf.nodup_descendants r⟩
    exact hf.not_mem_ancestors_self (hf.mem_descendants.1 h)
  · intro x hx hx'
    have hroot := ((hf.mem_tree_iff hr).1 hx).2
    have hroot' := ((hf.mem_tree_iff hs).1 hx').2
    exact hne (hroot.trans hroot'.symm)

theorem perm_walk (hf : f.Sound) : f.walk.Perm f.ids :=
  (List.perm_ext_iff_of_nodup hf.nodup_walk f.nodes.keys_nodup).2 fun _ => hf.mem_walk

end Sound

/-! ## The queries of a linked forest -/

/-- The queries of a forest agree with each other. Above an id stands the chain of its parents
up to a root, without repetition and without the id itself, and that root is the only one that
is the id or above it. Below an id stands the preorder of its tree: each child in order,
followed by what is below the child, without repetition; and an id is below another one exactly
if that one is above it. The roots, each followed by what is below it, are all ids, each once. -/
theorem queries_agree {deps : Dependencies} (h : ofDependencies deps = .ok f) :
    (∀ x ∈ f.ids,
      List.IsChain (fun a b => f.parent? a = some b) (x :: f.ancestors x) ∧
      (x :: f.ancestors x).Nodup ∧
      (x :: f.ancestors x).getLast? = some (f.rootOf x) ∧
      ∀ r, r = f.rootOf x ↔ r ∈ f.roots ∧ (r = x ∨ r ∈ f.ancestors x)) ∧
    (∀ y ∈ f.ids,
      f.descendants y = f.preorder y ∧
      f.preorder y = (f.children y).flatMap (fun c => c :: f.preorder c) ∧
      (f.descendants y).Nodup ∧
      ∀ x ∈ f.ids, x ∈ f.descendants y ↔ y ∈ f.ancestors x) ∧
    f.walk.Perm f.ids ∧ f.walk.Nodup := by
  have hf := Sound.of_ofDependencies h
  refine ⟨fun x hx => ?_, fun y _ => ?_, hf.perm_walk, hf.nodup_walk⟩
  · exact ⟨hf.isChain_ancestors hx, hf.nodup_path x, f.getLast?_path x,
      fun _ => hf.eq_rootOf_iff hx⟩
  · exact ⟨hf.descendants_eq_preorder y, hf.preorder_eq y, hf.nodup_descendants y,
      fun _ _ => hf.mem_descendants⟩

/-- Two trees, of which one branches; some ids are declared before their parents. -/
def scattered : Dependencies :=
  .ofList [("e", some "c"), ("a", none), ("b", some "a"), ("c", some "a"), ("d", some "b"),
    ("f", none)]

/-- The way up from `e` and the way down from `a`, and both trees in one list. -/
theorem queries_agree_scattered :
    ofDependencies scattered = .ok scattered.link ∧
      scattered.link.rootOf "e" = "a" ∧ scattered.link.descendants "a" = ["b", "d", "c", "e"] ∧
      ("e" ∈ scattered.link.descendants "a" ↔ "a" ∈ scattered.link.ancestors "e") ∧
      scattered.link.walk.Perm ["e", "a", "b", "c", "d", "f"] := by
  have hlink : ofDependencies scattered = .ok scattered.link := by decide +kernel
  obtain ⟨hup, hdown, hall, -⟩ := queries_agree hlink
  have hroot := (hup "e" (by decide +kernel)).2.2.2 "a"
  refine ⟨hlink, (hroot.2 (by decide +kernel)).symm, by decide +kernel,
    (hdown "a" (by decide +kernel)).2.2.2 "e" (by decide +kernel), ?_⟩
  exact hall.trans (List.Perm.of_eq (by decide +kernel))

end ForestPager.Forest
