import ForestPager.Forest.Build
import Mathlib.Data.List.Perm.Subperm
import Mathlib.Logic.Relation
import Mathlib.Order.Basic

/-!
# What linking makes of dependencies

A forest that was linked without a defect is *sound*: its two tables, parents and
children, say the same, and going up from any id ends at a root. From this the
chain of ancestors is understood in full: it is the parent and the parent's chain,
no id stands on its own chain, and the number of nodes is more than enough steps to
climb it.

Results:

* `Sound.of_ofDependencies`: linking without a defect gives a sound forest.
* `Sound.ancestors_of_parent`, `Sound.ancestors_of_root`: the chain, step by step.
* `Sound.depth_lt_size`: every chain is shorter than the forest has nodes.
* `Sound.induction_up`, `Sound.induction_down`: from the parent to the child, and
  from everything below an id to the id.
* `Sound.ancestors_linear`: two ids above a third one are above each other.
-/

namespace ForestPager

/-! ## Where a tour can lead -/

/-- A tour visits only ids to which the links lead from what was pending. -/
theorem exists_link_of_mem_tour (next : QueryId → List QueryId) (n : ℕ) (pending : List QueryId)
    {y : QueryId} (hy : y ∈ (tour next n pending).visited) :
    ∃ x ∈ pending, Relation.ReflTransGen (fun a b => b ∈ next a) x y := by
  induction n generalizing pending with
  | zero => simp at hy
  | succ n ih =>
    cases pending with
    | nil => simp at hy
    | cons x rest =>
      rw [tour_cons, List.mem_cons] at hy
      rcases hy with rfl | hy
      · exact ⟨y, List.mem_cons_self, .refl⟩
      · obtain ⟨z, hz, hzy⟩ := ih _ hy
        rcases List.mem_append.1 hz with hz | hz
        · exact ⟨x, List.mem_cons_self, .head hz hzy⟩
        · exact ⟨z, List.mem_cons_of_mem _ hz, hzy⟩

namespace Forest

/-! ## Levels and soundness -/

/-- An id stands `n` links below a root. -/
inductive Level (f : Forest) : QueryId → ℕ → Prop
  | root {x : QueryId} : x ∈ f.ids → f.parent? x = none → Level f x 0
  | child {x p : QueryId} {n : ℕ} : f.parent? x = some p → Level f p n → Level f x (n + 1)

/-- Parents and children say the same, the roots are the ids without a parent, no list names an id
twice, and going up from an id ends at a root. -/
structure Sound (f : Forest) : Prop where
  mem_children : ∀ x c, c ∈ f.children x ↔ f.parent? c = some x
  nodup_children : ∀ x, (f.children x).Nodup
  mem_roots : ∀ x, x ∈ f.roots ↔ x ∈ f.ids ∧ f.parent? x = none
  nodup_roots : f.roots.Nodup
  level : ∀ x ∈ f.ids, ∃ n, f.Level x n

theorem mem_ids_of_parent {f : Forest} {x p : QueryId} (h : f.parent? x = some p) : x ∈ f.ids := by
  obtain ⟨node, hnode, -⟩ := Option.bind_eq_some_iff.1 h
  exact (f.nodes.mem_keys_iff x).2 ⟨node, hnode⟩

theorem Level.mem_ids {f : Forest} {x : QueryId} {n : ℕ} (h : f.Level x n) : x ∈ f.ids := by
  cases h with
  | root hx _ => exact hx
  | child hp _ => exact mem_ids_of_parent hp

theorem Level.unique {f : Forest} {x : QueryId} {m n : ℕ} (hm : f.Level x m) (hn : f.Level x n) :
    m = n := by
  induction hm generalizing n with
  | root _ hr =>
    cases hn with
    | root _ _ => rfl
    | child hp _ => simp [hr] at hp
  | child hp _ ih =>
    cases hn with
    | root _ hr => simp [hr] at hp
    | child hp' hn =>
      obtain rfl : _ = _ := Option.some.inj (hp.symm.trans hp')
      rw [ih hn]

/-! ## Soundness of linked dependencies -/

theorem parent?_link (deps : Dependencies) (x : QueryId) :
    deps.link.parent? x = (deps.get? x).join := by
  rw [parent?, Dependencies.link, OrderedMap.get?_mapValues]
  cases deps.get? x <;> rfl

/-- The children of an id, by look-up. -/
theorem childrenOf_eq (deps : Dependencies) (x : QueryId) :
    deps.childrenOf x = deps.keys.filter fun c => decide (deps.get? c = some (some x)) :=
  deps.map_fst_filter_eq (some x)

theorem mem_childrenOf (deps : Dependencies) (x c : QueryId) :
    c ∈ deps.childrenOf x ↔ deps.get? c = some (some x) := by
  rw [childrenOf_eq, List.mem_filter, decide_eq_true_eq, and_iff_right_iff_imp]
  exact fun h => (OrderedMap.mem_keys_iff deps c).2 ⟨_, h⟩

theorem nodup_childrenOf (deps : Dependencies) (x : QueryId) : (deps.childrenOf x).Nodup :=
  (List.filter_sublist.map Prod.fst).nodup deps.nodup_keys

/-- The roots, by look-up. -/
theorem roots_eq (deps : Dependencies) :
    deps.roots = deps.keys.filter fun x => decide (deps.get? x = some none) :=
  deps.map_fst_filter_eq none

theorem mem_roots_iff (deps : Dependencies) (x : QueryId) :
    x ∈ deps.roots ↔ deps.get? x = some none := by
  rw [roots_eq, List.mem_filter, decide_eq_true_eq, and_iff_right_iff_imp]
  exact fun h => (OrderedMap.mem_keys_iff deps x).2 ⟨_, h⟩

theorem mem_keys_of_unknownParents {deps : Dependencies} (h : deps.unknownParents = [])
    {x p : QueryId} (hx : deps.get? x = some (some p)) : p ∈ deps.keys := by
  by_contra hp
  have hdangling : deps.isDangling (some p) = true := by
    simpa [Dependencies.isDangling, OrderedMap.contains_iff, ← Bool.not_eq_true] using hp
  have hmem : p ∈ deps.unknownParents := by
    rw [Dependencies.unknownParents, mem_distinctIds, List.mem_filterMap]
    exact ⟨(x, some p), List.mem_filter.2 ⟨(OrderedMap.get?_eq_some_iff deps).1 hx, hdangling⟩, rfl⟩
  simp [h] at hmem

theorem children_link {deps : Dependencies} {x : QueryId} (hx : x ∈ deps.keys) :
    deps.link.children x = deps.childrenOf x := by
  obtain ⟨parent, hp⟩ := (OrderedMap.mem_keys_iff deps x).1 hx
  rw [children, Dependencies.link, OrderedMap.get?_mapValues, hp]
  rfl

theorem children_link_of_not_mem {deps : Dependencies} {x : QueryId} (hx : x ∉ deps.keys) :
    deps.link.children x = [] := by
  rw [children, Dependencies.link, OrderedMap.get?_mapValues,
    (OrderedMap.get?_eq_none_iff deps x).2 hx]
  rfl

/-- Every link that leads on from a root leads one level down. -/
theorem exists_level_link {deps : Dependencies} {r x : QueryId} (hr : deps.get? r = some none)
    (hx : Relation.ReflTransGen (fun a b => b ∈ deps.childrenOf a) r x) :
    ∃ n, deps.link.Level x n := by
  induction hx with
  | refl =>
    refine ⟨0, .root ?_ ?_⟩
    · rw [ids_link, OrderedMap.mem_keys_iff]
      exact ⟨none, hr⟩
    · rw [parent?_link, hr]
      rfl
  | tail _ hb ih =>
    obtain ⟨n, hn⟩ := ih
    refine ⟨n + 1, .child ?_ hn⟩
    rw [parent?_link, (mem_childrenOf _ _ _).1 hb]
    rfl

/-- Linking without a defect gives a sound forest. -/
theorem Sound.of_ofDependencies {deps : Dependencies} {f : Forest}
    (h : ofDependencies deps = .ok f) : f.Sound := by
  obtain ⟨hknown, hreached, rfl⟩ := ofDependencies_eq_ok.1 h
  have hchildren : ∀ x c, c ∈ deps.link.children x ↔ deps.link.parent? c = some x := by
    intro x c
    rw [parent?_link]
    by_cases hx : x ∈ deps.keys
    · rw [children_link hx, mem_childrenOf, Option.join_eq_some_iff]
    · rw [children_link_of_not_mem hx, Option.join_eq_some_iff]
      simp only [List.not_mem_nil, false_iff]
      exact fun hc => hx (mem_keys_of_unknownParents hknown hc)
  refine ⟨hchildren, fun x => ?_, fun x => ?_, ?_, fun x hx => ?_⟩
  · by_cases hx : x ∈ deps.keys
    · rw [children_link hx]; exact nodup_childrenOf deps x
    · rw [children_link_of_not_mem hx]; exact List.nodup_nil
  · rw [show deps.link.roots = deps.roots from rfl, mem_roots_iff, ids_link, parent?_link,
      OrderedMap.mem_keys_iff]
    cases deps.get? x <;> simp
  · exact (List.filter_sublist.map Prod.fst).nodup deps.nodup_keys
  · rw [ids_link] at hx
    have hvisited : x ∈ deps.reach.visited := by
      by_contra hnot
      have hmem : x ∈ deps.unreached := List.mem_filter.2 ⟨hx, by simpa using hnot⟩
      simp [hreached] at hmem
    obtain ⟨r, hr, hlink⟩ := exists_link_of_mem_tour _ _ _ hvisited
    exact exists_level_link ((mem_roots_iff deps r).1 hr) hlink

/-! ## The chain of ancestors -/

variable {f : Forest} {x y p a b : QueryId} {n : ℕ}

/-- A climb from level `n` takes `n` steps, however many it may take. -/
theorem Level.climb_eq {m : ℕ} (h : f.Level x n) (hm : n ≤ m) :
    climb f.parent? m x = climb f.parent? n x := by
  induction h generalizing m with
  | root _ hr => rw [climb_of_none hr, climb_of_none hr]
  | child hp _ ih =>
    obtain ⟨k, rfl⟩ : ∃ k, m = k + 1 := ⟨m - 1, by omega⟩
    rw [climb_of_some hp, climb_of_some hp, ih (by omega)]

theorem Level.length_climb (h : f.Level x n) : (climb f.parent? n x).length = n := by
  induction h with
  | root _ hr => rw [climb_of_none hr]; rfl
  | child hp _ ih => rw [climb_of_some hp, List.length_cons, ih]

/-- What a climb passes stands on lower levels than its start. -/
theorem Level.of_mem_climb (h : f.Level x n) (hy : y ∈ climb f.parent? n x) :
    ∃ k < n, f.Level y k := by
  induction h with
  | root _ hr => simp [climb_of_none hr] at hy
  | @child x p n hp hl ih =>
    rw [climb_of_some hp, List.mem_cons] at hy
    rcases hy with rfl | hy
    · exact ⟨n, by omega, hl⟩
    · obtain ⟨k, hk, hky⟩ := ih hy
      exact ⟨k, by omega, hky⟩

theorem Level.not_mem_climb (h : f.Level x n) : x ∉ climb f.parent? n x := by
  intro hx
  obtain ⟨k, hk, hkx⟩ := h.of_mem_climb hx
  have := h.unique hkx
  omega

theorem Level.nodup_climb (h : f.Level x n) : (climb f.parent? n x).Nodup := by
  induction h with
  | root _ hr => rw [climb_of_none hr]; exact List.nodup_nil
  | child hp hl ih => rw [climb_of_some hp]; exact List.nodup_cons.2 ⟨hl.not_mem_climb, ih⟩

/-- A list without repetition of ids of a forest is no longer than the forest. -/
theorem length_le_size {l : List QueryId} (hn : l.Nodup) (hl : ∀ z ∈ l, z ∈ f.ids) :
    l.length ≤ f.size :=
  (List.subperm_of_subset hn hl).length_le.trans_eq f.nodes.length_keys

theorem Level.lt_size (h : f.Level x n) : n < f.size := by
  have hlen := length_le_size (f := f) (List.nodup_cons.2 ⟨h.not_mem_climb, h.nodup_climb⟩)
    (fun z hz => by
      rcases List.mem_cons.1 hz with rfl | hz
      · exact h.mem_ids
      · obtain ⟨k, -, hk⟩ := h.of_mem_climb hz
        exact hk.mem_ids)
  rw [List.length_cons, h.length_climb] at hlen
  exact hlen

theorem Level.ancestors_eq (h : f.Level x n) : f.ancestors x = climb f.parent? n x :=
  h.climb_eq (Nat.le_of_lt h.lt_size)

/-- The number of ids above an id. -/
def depth (f : Forest) (x : QueryId) : ℕ := (f.ancestors x).length

theorem Level.depth_eq (h : f.Level x n) : f.depth x = n := by
  rw [depth, h.ancestors_eq, h.length_climb]

theorem ancestors_of_root (h : f.parent? x = none) : f.ancestors x = [] := climb_of_none h _

theorem parent?_eq_none_of_not_mem (h : x ∉ f.ids) : f.parent? x = none := by
  rw [parent?, (OrderedMap.get?_eq_none_iff f.nodes x).2 h]
  rfl

namespace Sound

/-- The ids above an id are its parent and those above the parent. -/
theorem ancestors_of_parent (hf : f.Sound) (h : f.parent? x = some p) :
    f.ancestors x = p :: f.ancestors p := by
  obtain ⟨n, hn⟩ := hf.level x (mem_ids_of_parent h)
  cases hn with
  | root _ hr => simp [hr] at h
  | child hp hl =>
    obtain rfl : _ = _ := Option.some.inj (hp.symm.trans h)
    rw [(Level.child hp hl).ancestors_eq, climb_of_some hp, hl.ancestors_eq]

theorem parent_mem_ids (hf : f.Sound) (h : f.parent? x = some p) : p ∈ f.ids := by
  obtain ⟨n, hn⟩ := hf.level x (mem_ids_of_parent h)
  cases hn with
  | root _ hr => simp [hr] at h
  | child hp hl => exact Option.some.inj (hp.symm.trans h) ▸ hl.mem_ids

theorem mem_ancestors_iff (hf : f.Sound) :
    a ∈ f.ancestors x ↔ ∃ p, f.parent? x = some p ∧ (a = p ∨ a ∈ f.ancestors p) := by
  cases hp : f.parent? x with
  | none => simp [ancestors_of_root hp]
  | some p => simp [hf.ancestors_of_parent hp]

/-- From the parent to the child. -/
theorem induction_up (hf : f.Sound) {motive : (x : QueryId) → x ∈ f.ids → Prop}
    (root : ∀ x hx, f.parent? x = none → motive x hx)
    (child : ∀ x p (hp : f.parent? x = some p), motive p (hf.parent_mem_ids hp) →
      motive x (mem_ids_of_parent hp))
    (x : QueryId) (hx : x ∈ f.ids) : motive x hx := by
  obtain ⟨n, hn⟩ := hf.level x hx
  induction hn with
  | root hx hr => exact root _ hx hr
  | child hp hl ih => exact child _ _ hp (ih hl.mem_ids)

theorem mem_ids_of_mem_ancestors (hf : f.Sound) (h : a ∈ f.ancestors x) :
    a ∈ f.ids ∧ x ∈ f.ids := by
  obtain ⟨p, hp, -⟩ := hf.mem_ancestors_iff.1 h
  have hx := mem_ids_of_parent hp
  refine ⟨?_, hx⟩
  obtain ⟨n, hn⟩ := hf.level x hx
  rw [hn.ancestors_eq] at h
  obtain ⟨k, -, hk⟩ := hn.of_mem_climb h
  exact hk.mem_ids

theorem ancestors_trans (hf : f.Sound) (hab : b ∈ f.ancestors a) (hax : a ∈ f.ancestors x) :
    b ∈ f.ancestors x := by
  have hx := (hf.mem_ids_of_mem_ancestors hax).2
  revert hax
  induction x, hx using hf.induction_up with
  | root x _ hr => simp [ancestors_of_root hr]
  | child x p hp ih =>
    intro hax
    rw [hf.ancestors_of_parent hp, List.mem_cons] at hax ⊢
    rcases hax with rfl | hax
    · exact .inr hab
    · exact .inr (ih hax)

theorem depth_of_parent (hf : f.Sound) (h : f.parent? x = some p) :
    f.depth x = f.depth p + 1 := by
  rw [depth, hf.ancestors_of_parent h, List.length_cons, depth]

theorem depth_lt_of_mem_ancestors (hf : f.Sound) (h : a ∈ f.ancestors x) :
    f.depth a < f.depth x := by
  have hx := (hf.mem_ids_of_mem_ancestors h).2
  revert h
  induction x, hx using hf.induction_up with
  | root x _ hr => simp [ancestors_of_root hr]
  | child x p hp ih =>
    intro h
    rw [hf.depth_of_parent hp]
    rw [hf.ancestors_of_parent hp, List.mem_cons] at h
    rcases h with rfl | h
    · omega
    · have := ih h
      omega

/-- Every chain is shorter than the forest has nodes. -/
theorem depth_lt_size (hf : f.Sound) (hx : x ∈ f.ids) : f.depth x < f.size := by
  obtain ⟨n, hn⟩ := hf.level x hx
  exact hn.depth_eq.trans_lt hn.lt_size

theorem not_mem_ancestors_self (hf : f.Sound) : x ∉ f.ancestors x := fun h =>
  absurd (hf.depth_lt_of_mem_ancestors h) (Nat.lt_irrefl _)

theorem ancestors_asymm (hf : f.Sound) (h : a ∈ f.ancestors x) : x ∉ f.ancestors a := fun h' =>
  hf.not_mem_ancestors_self (hf.ancestors_trans h h')

theorem nodup_ancestors (hf : f.Sound) : (f.ancestors x).Nodup := by
  by_cases hx : x ∈ f.ids
  · obtain ⟨n, hn⟩ := hf.level x hx
    rw [hn.ancestors_eq]
    exact hn.nodup_climb
  · rw [ancestors_of_root (parent?_eq_none_of_not_mem hx)]
    exact List.nodup_nil

/-- From everything below an id to the id. -/
theorem induction_down (hf : f.Sound) {motive : (x : QueryId) → x ∈ f.ids → Prop}
    (step : ∀ x hx, (∀ y (hy : x ∈ f.ancestors y), motive y (hf.mem_ids_of_mem_ancestors hy).2) →
      motive x hx)
    (x : QueryId) (hx : x ∈ f.ids) : motive x hx := by
  induction h : f.size - f.depth x using Nat.strongRecOn generalizing x with
  | _ k ih =>
    refine step x hx fun y hy => ?_
    have hyi := (hf.mem_ids_of_mem_ancestors hy).2
    have hlt := hf.depth_lt_of_mem_ancestors hy
    have hsize := hf.depth_lt_size hyi
    exact ih _ (by omega) y hyi rfl

/-- Two ids above a third one are equal or above each other. -/
theorem ancestors_linear (hf : f.Sound) (ha : a ∈ f.ancestors x) (hb : b ∈ f.ancestors x) :
    a = b ∨ a ∈ f.ancestors b ∨ b ∈ f.ancestors a := by
  have hx := (hf.mem_ids_of_mem_ancestors ha).2
  revert ha hb
  induction x, hx using hf.induction_up with
  | root x _ hr => simp [ancestors_of_root hr]
  | child x p hp ih =>
    intro ha hb
    rw [hf.ancestors_of_parent hp, List.mem_cons] at ha hb
    rcases ha with rfl | ha
    · exact hb.imp Eq.symm .inr
    · rcases hb with rfl | hb
      · exact .inr (.inl ha)
      · exact ih ha hb

/-- Two ids on the path to a third one are equal or above each other. -/
theorem path_linear (hf : f.Sound) (ha : a ∈ x :: f.ancestors x) (hb : b ∈ x :: f.ancestors x) :
    a = b ∨ a ∈ f.ancestors b ∨ b ∈ f.ancestors a := by
  rcases List.mem_cons.1 ha with rfl | ha
  · exact (List.mem_cons.1 hb).imp Eq.symm .inr
  · rcases List.mem_cons.1 hb with rfl | hb
    · exact .inr (.inl ha)
    · exact hf.ancestors_linear ha hb

/-- What is on the path to an id on a path is on that path. -/
theorem mem_path_trans (hf : f.Sound) (ha : a = b ∨ a ∈ f.ancestors b)
    (hb : b ∈ x :: f.ancestors x) : a ∈ x :: f.ancestors x := by
  rcases ha with rfl | ha
  · exact hb
  · rcases List.mem_cons.1 hb with rfl | hb
    · exact List.mem_cons_of_mem _ ha
    · exact List.mem_cons_of_mem _ (hf.ancestors_trans ha hb)

/-- What is below an id is one of its children or below one of them. -/
theorem mem_ancestors_iff_child (hf : f.Sound) :
    a ∈ f.ancestors x ↔ ∃ c ∈ f.children a, x = c ∨ c ∈ f.ancestors x := by
  constructor
  · intro h
    have hx := (hf.mem_ids_of_mem_ancestors h).2
    revert h
    induction x, hx using hf.induction_up with
    | root x _ hr => simp [ancestors_of_root hr]
    | child x p hp ih =>
      intro h
      rw [hf.ancestors_of_parent hp, List.mem_cons] at h
      rcases h with rfl | h
      · exact ⟨x, (hf.mem_children _ _).2 hp, .inl rfl⟩
      · obtain ⟨c, hc, hcp⟩ := ih h
        refine ⟨c, hc, .inr ?_⟩
        rw [hf.ancestors_of_parent hp, List.mem_cons]
        exact hcp.imp Eq.symm id
  · rintro ⟨c, hc, hcx⟩
    have hac : a ∈ f.ancestors c := by
      rw [hf.ancestors_of_parent ((hf.mem_children _ _).1 hc)]
      exact List.mem_cons_self
    rcases hcx with rfl | hcx
    · exact hac
    · exact hf.ancestors_trans hac hcx

end Sound

end Forest

end ForestPager
