import ForestPager.Leaves
import ForestPager.Proofs.Forest.Kinship

/-!
# Which ids are leaves

The search for leaves walks down from the roots and decides on the way up. What it
finds is described without it: an id is *selectable* when it is eligible and neither
it nor an id above it is outside the query, and a *leaf* when moreover nothing below
it is selectable. The leaves come in the order of the preorder of the forest.

Results:

* `Forest.Sound.exists_leaf`: a selectable id is a leaf or has a leaf below it.
* `Forest.Sound.leavesFrom_eq`: the leaves of one tree.
* `Forest.Sound.leaves_eq`: the leaves of a round.
* `Forest.Sound.not_mem_ancestors_of_leaf`: no leaf is above another.
* `Round.selects_deepest`: what selecting the leaves of a round gives.
-/

namespace ForestPager

namespace Forest

variable {f : Forest} {within eligible : QueryId → Bool} {x y : QueryId}

/-! ## Selectable ids and leaves -/

/-- An id may be advanced, and the search is not kept from it. -/
def Selectable (f : Forest) (within eligible : QueryId → Bool) (x : QueryId) : Prop :=
  eligible x = true ∧ ∀ a ∈ x :: f.ancestors x, within a = true

instance (f : Forest) (within eligible : QueryId → Bool) (x : QueryId) :
    Decidable (f.Selectable within eligible x) :=
  inferInstanceAs (Decidable (_ ∧ _))

/-- An id may be advanced, and nothing below it may. -/
def IsLeaf (f : Forest) (within eligible : QueryId → Bool) (x : QueryId) : Prop :=
  f.Selectable within eligible x ∧ ∀ y ∈ f.descendants x, ¬ f.Selectable within eligible y

instance (f : Forest) (within eligible : QueryId → Bool) (x : QueryId) :
    Decidable (f.IsLeaf within eligible x) :=
  inferInstanceAs (Decidable (_ ∧ _))

namespace Sound

/-- A selectable id is a leaf or has a leaf below it. -/
theorem exists_leaf (hf : f.Sound) (hx : x ∈ f.ids) (h : f.Selectable within eligible x) :
    ∃ y, (y = x ∨ x ∈ f.ancestors y) ∧ f.IsLeaf within eligible y := by
  induction x, hx using hf.induction_down with
  | step x hx ih =>
    by_cases hl : f.IsLeaf within eligible x
    · exact ⟨x, .inl rfl, hl⟩
    · obtain ⟨y, hy, hys⟩ : ∃ y ∈ f.descendants x, f.Selectable within eligible y := by
        simpa [IsLeaf, h] using hl
      rw [hf.mem_descendants] at hy
      obtain ⟨z, hz, hzl⟩ := ih y hy hys
      refine ⟨z, .inr ?_, hzl⟩
      rcases hz with rfl | hz
      · exact hy
      · exact hf.ancestors_trans hy hz

/-- No leaf is above another. -/
theorem not_mem_ancestors_of_leaf (hf : f.Sound) (hx : f.IsLeaf within eligible x)
    (hy : f.IsLeaf within eligible y) : x ∉ f.ancestors y := fun h =>
  hx.2 y (hf.mem_descendants.2 h) hy.1

/-- Where the search is not kept from an id, the leaves below it decide whether it is
one itself. -/
theorem isLeaf_iff (hf : f.Sound) (hw : ∀ a ∈ x :: f.ancestors x, within a = true) :
    f.IsLeaf within eligible x ↔
      eligible x = true ∧ (f.descendants x).filter (f.IsLeaf within eligible) = [] := by
  rw [IsLeaf, Selectable, List.filter_eq_nil_iff]
  constructor
  · rintro ⟨⟨he, -⟩, hbelow⟩
    exact ⟨he, fun y hy hl => hbelow y hy (by simpa using hl : f.IsLeaf within eligible y).1⟩
  · rintro ⟨he, hnone⟩
    refine ⟨⟨he, hw⟩, fun y hy hs => ?_⟩
    have hxy := hf.mem_descendants.1 hy
    obtain ⟨z, hz, hzl⟩ := hf.exists_leaf (hf.mem_ids_of_mem_ancestors hxy).2 hs
    refine hnone z (hf.mem_descendants.2 ?_) (by simpa using hzl)
    rcases hz with rfl | hz
    · exact hxy
    · exact hf.ancestors_trans hxy hz

/-- The leaves of one tree, none of whose upper ids keeps the search away. -/
theorem leavesFrom_eq (hf : f.Sound) {n : ℕ} (hx : x ∈ f.ids)
    (hw : ∀ a ∈ f.ancestors x, within a = true) (hn : f.size ≤ n + f.depth x) :
    f.leavesFrom within eligible n x =
      (x :: f.descendants x).filter (f.IsLeaf within eligible) := by
  induction x, hx using hf.induction_down generalizing n with
  | step x hx ih =>
    have hlt := hf.depth_lt_size hx
    obtain ⟨n, rfl⟩ : ∃ k, n = k + 1 := ⟨n - 1, by omega⟩
    cases hwx : within x with
    | false =>
      -- the search does not go past `x`, which is above every id of its tree
      rw [leavesFrom_of_not_within f hwx, eq_comm, List.filter_eq_nil_iff]
      intro y hy hl
      have hy' : x ∈ y :: f.ancestors y := by
        rw [List.mem_cons, hf.mem_descendants] at hy
        rw [List.mem_cons]
        exact hy.imp_left Eq.symm
      have := (of_decide_eq_true hl).1.2 x hy'
      simp [hwx] at this
    | true =>
      have hwa : ∀ a ∈ x :: f.ancestors x, within a = true := by
        simpa [hwx] using hw
      have hbelow : (f.children x).flatMap (f.leavesFrom within eligible n) =
          (f.descendants x).filter (f.IsLeaf within eligible) := by
        rw [hf.descendants_eq, List.filter_flatMap]
        refine List.flatMap_congr fun c hc => ?_
        have hd := hf.depth_of_mem_children hc
        refine ih c (hf.mem_ancestors_of_mem_children hc) ?_ (by omega)
        rwa [hf.ancestors_of_parent ((hf.mem_children x c).1 hc)]
      rw [leavesFrom_succ f hwx, hbelow, List.filter_cons]
      -- the search takes `x` only if nothing below it was taken, and so does the definition
      have hiff : f.IsLeaf within eligible x ↔ _ := hf.isLeaf_iff hwa
      by_cases hl : f.IsLeaf within eligible x
      · obtain ⟨he, hnil⟩ := hiff.1 hl
        simp [hl, he, hnil]
      · have : ¬ (((f.descendants x).filter (f.IsLeaf within eligible)).isEmpty &&
            eligible x) = true := by
          rw [Bool.and_eq_true, List.isEmpty_iff, and_comm, ← hiff]
          exact hl
        simp [hl, this]

/-- The leaves of a round are the leaves of the forest, in the order of the walk. -/
theorem leaves_eq (hf : f.Sound) (r : Round) (within : QueryId → Bool) :
    r.leaves f within = f.walk.filter (f.IsLeaf within r.isEligible) := by
  rw [Round.leaves, walk, List.filter_flatMap]
  refine List.flatMap_congr fun x hx => ?_
  obtain ⟨hx, hr⟩ := (hf.mem_roots x).1 hx
  refine hf.leavesFrom_eq hx ?_ (by omega)
  simp [ancestors_of_root hr]

theorem mem_leaves (hf : f.Sound) {r : Round} {within : QueryId → Bool} :
    x ∈ r.leaves f within ↔ x ∈ f.ids ∧ f.IsLeaf within r.isEligible x := by
  rw [hf.leaves_eq, List.mem_filter, hf.mem_walk, decide_eq_true_eq]

theorem nodup_leaves (hf : f.Sound) (r : Round) (within : QueryId → Bool) :
    (r.leaves f within).Nodup := by
  rw [hf.leaves_eq]
  exact hf.nodup_walk.filter _

theorem sublist_walk_leaves (hf : f.Sound) (r : Round) (within : QueryId → Bool) :
    (r.leaves f within).Sublist f.walk := by
  rw [hf.leaves_eq]
  exact List.filter_sublist

/-- Ids outside the forest make no difference to the search. -/
theorem leaves_congr (hf : f.Sound) (r : Round) {within within' : QueryId → Bool}
    (h : ∀ y ∈ f.ids, within y = within' y) : r.leaves f within = r.leaves f within' := by
  have hselectable : ∀ x ∈ f.ids,
      (f.Selectable within r.isEligible x ↔ f.Selectable within' r.isEligible x) := by
    intro x hx
    refine and_congr_right fun _ => forall₂_congr fun a ha => ?_
    have hmem : a ∈ f.ids := by
      rcases List.mem_cons.1 ha with rfl | ha
      · exact hx
      · exact (hf.mem_ids_of_mem_ancestors ha).1
    rw [h a hmem]
  rw [hf.leaves_eq, hf.leaves_eq]
  refine List.filter_congr fun x hx => decide_eq_decide.2 ?_
  refine and_congr (hselectable x (hf.mem_walk.1 hx)) (forall₂_congr fun y hy => not_congr ?_)
  exact hselectable y (hf.mem_ids_of_mem_ancestors (hf.mem_descendants.1 hy)).2

end Sound

end Forest

namespace Round

variable {f : Forest} {r : Round} {within : QueryId → Bool} {x : QueryId}

theorem selectLeaves_of_not_finished (hr : r.finished = false) (f : Forest)
    (within : QueryId → Bool) : r.selectLeaves f within = .ok (r.leaves f within) := by
  rw [selectLeaves, hr, if_neg Bool.false_ne_true]

theorem selectable_iff (r : Round) :
    f.Selectable within r.isEligible x ↔ (∀ a ∈ x :: f.ancestors x, within a = true) ∧
      x ∈ r.cursors.keys ∧ r.excluded.contains x = false := by
  rw [Forest.Selectable, r.isEligible_iff, and_comm, and_comm (b := x ∈ r.cursors.keys),
    isExcluded]

/-- Selecting the leaves of a round that is not finished gives the deepest eligible ids. An id is
eligible when no id on its path is outside the working set, the round lists it and it is not
excluded. The leaves are the eligible ids without an eligible one below them, each once and in
the order of the walk through the trees of the forest. So none of them is above another, and
every eligible id is a leaf or has one below it. Without a working set the search is that within
all ids. -/
theorem selects_deepest {deps : Dependencies} (h : Forest.ofDependencies deps = .ok f)
    (hr : r.finished = false) (within : QueryId → Bool) :
    let eligible := fun x => (∀ a ∈ x :: f.ancestors x, within a = true) ∧
      x ∈ r.cursors.keys ∧ r.excluded.contains x = false
    ∃ leaves, r.selectLeaves f within = .ok leaves ∧ leaves.Nodup ∧
      (∀ x, x ∈ leaves ↔ x ∈ f.ids ∧ eligible x ∧ ∀ y ∈ f.descendants x, ¬ eligible y) ∧
      leaves.Sublist f.walk ∧
      (∀ x ∈ leaves, ∀ y ∈ leaves, x ∉ f.ancestors y) ∧
      (∀ x ∈ f.ids, eligible x → x ∈ leaves ∨ ∃ y ∈ leaves, y ∈ f.descendants x) ∧
      r.selectLeaves f (fun _ => true) = r.selectLeaves f f.contains := by
  have hf := Forest.Sound.of_ofDependencies h
  intro eligible
  have heligible : ∀ x, eligible x ↔ f.Selectable within r.isEligible x := fun x =>
    (selectable_iff r).symm
  have hmem : ∀ x, x ∈ r.leaves f within ↔
      x ∈ f.ids ∧ eligible x ∧ ∀ y ∈ f.descendants x, ¬ eligible y := by
    intro x
    simp only [heligible]
    exact hf.mem_leaves
  refine ⟨r.leaves f within, selectLeaves_of_not_finished hr f within, hf.nodup_leaves r within,
    hmem, hf.sublist_walk_leaves r within, fun x hx y hy => ?_, fun x hx he => ?_, ?_⟩
  · exact hf.not_mem_ancestors_of_leaf (hf.mem_leaves.1 hx).2 (hf.mem_leaves.1 hy).2
  · obtain ⟨y, hy, hleaf⟩ := hf.exists_leaf hx ((heligible x).1 he)
    rcases hy with rfl | hy
    · exact .inl (hf.mem_leaves.2 ⟨hx, hleaf⟩)
    · have hyi := (hf.mem_ids_of_mem_ancestors hy).2
      exact .inr ⟨y, hf.mem_leaves.2 ⟨hyi, hleaf⟩, hf.mem_descendants.2 hy⟩
  · rw [selectLeaves_of_not_finished hr, selectLeaves_of_not_finished hr]
    exact congrArg _ (hf.leaves_congr r fun y hy => ((f.contains_iff y).2 hy).symm)

/-- A round in which every id of `scattered` has a cursor and `d` is excluded. -/
def allListed : Round where
  isNew := false
  cursors := .ofList (["a", "b", "c", "d", "e", "f"].map fun x => (x, some (.ofText "1")))
  excluded := .ofList ["d"]

/-- Where `d` is excluded and `c` is outside the working set, the leaves are `b` and `f`. -/
theorem selects_deepest_scattered :
    Forest.ofDependencies Forest.scattered = .ok Forest.scattered.link ∧
      allListed.finished = false ∧
      ∃ leaves, allListed.selectLeaves Forest.scattered.link (fun x => x != "c") = .ok leaves ∧
        leaves = ["b", "f"] ∧ leaves.Sublist Forest.scattered.link.walk ∧
        ∀ x ∈ leaves, ∀ y ∈ leaves, x ∉ Forest.scattered.link.ancestors y := by
  have hlink : Forest.ofDependencies Forest.scattered = .ok Forest.scattered.link := by
    decide +kernel
  have hgoes : allListed.finished = false := by decide +kernel
  obtain ⟨leaves, hleaves, -, -, horder, hapart, -⟩ :=
    selects_deepest hlink hgoes fun x => x != "c"
  have hbf : allListed.selectLeaves Forest.scattered.link (fun x => x != "c") =
      .ok ["b", "f"] := by decide +kernel
  exact ⟨hlink, hgoes, leaves, hleaves, Except.ok.inj (hleaves.symm.trans hbf), horder, hapart⟩

end Round

end ForestPager
