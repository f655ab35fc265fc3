import ForestPager.Proofs.Forest.Linked
import Mathlib.Data.List.Nodup

/-!
# Recursion over the trees of a forest

In a sound forest functions can be defined by recursion over trees: `fold` makes the
value of an id from the values of its children. The recursion is given as many
levels as the forest has nodes, which is always enough. The preorder of a tree is
such a function, and the walk with a list of pending ids is seen to follow it.

Results:

* `Sound.fold_eq`: the recursion equation.
* `Sound.descendants_eq`: each child in order, followed by what is below it.
* `Sound.mem_descendants`: what is below an id is what the id is above.
* `Sound.nodup_descendants`: nothing is visited twice.
-/

namespace ForestPager.Forest

variable {α : Type} {f : Forest} {x y : QueryId}

/-! ## Folding a tree -/

/-- The value of the tree under an id, made by `step` from the children with their
values; `levels` bounds how far down it goes. -/
def foldFrom (f : Forest) (step : QueryId → List (QueryId × α) → α) : (levels : ℕ) → QueryId → α
  | 0, x => step x []
  | n + 1, x => step x ((f.children x).map fun c => (c, f.foldFrom step n c))

/-- The value of the tree under an id. -/
def fold (f : Forest) (step : QueryId → List (QueryId × α) → α) (x : QueryId) : α :=
  f.foldFrom step f.size x

namespace Sound

theorem depth_of_mem_children (hf : f.Sound) {c : QueryId} (hc : c ∈ f.children x) :
    f.depth c = f.depth x + 1 :=
  hf.depth_of_parent ((hf.mem_children x c).1 hc)

theorem mem_ancestors_of_mem_children (hf : f.Sound) {c : QueryId} (hc : c ∈ f.children x) :
    x ∈ f.ancestors c :=
  hf.mem_ancestors_iff_child.2 ⟨c, hc, .inl rfl⟩

/-- More levels than a tree can have make no difference. -/
theorem foldFrom_eq (hf : f.Sound) (step : QueryId → List (QueryId × α) → α) {m n : ℕ}
    (hx : x ∈ f.ids) (hm : f.size ≤ m + f.depth x) (hn : f.size ≤ n + f.depth x) :
    f.foldFrom step m x = f.foldFrom step n x := by
  induction x, hx using hf.induction_down generalizing m n with
  | step x hx ih =>
    have hlt := hf.depth_lt_size hx
    obtain ⟨m, rfl⟩ : ∃ k, m = k + 1 := ⟨m - 1, by omega⟩
    obtain ⟨n, rfl⟩ : ∃ k, n = k + 1 := ⟨n - 1, by omega⟩
    rw [foldFrom, foldFrom]
    congr 1
    refine List.map_congr_left fun c hc => ?_
    have hd := hf.depth_of_mem_children hc
    rw [ih c (hf.mem_ancestors_of_mem_children hc) (m := m) (n := n) (by omega) (by omega)]

/-- The recursion equation. -/
theorem fold_eq (hf : f.Sound) (step : QueryId → List (QueryId × α) → α) (hx : x ∈ f.ids) :
    f.fold step x = step x ((f.children x).map fun c => (c, f.fold step c)) := by
  rw [fold, hf.foldFrom_eq step hx (n := f.size + 1) (by omega) (by omega)]
  rfl

end Sound

/-! ## Preorder -/

/-- What is below an id: each child in order, followed by what is below the child. -/
def preorder (f : Forest) : QueryId → List QueryId :=
  f.fold fun _ below => below.flatMap fun e => e.1 :: e.2

theorem children_of_not_mem (h : x ∉ f.ids) : f.children x = [] := by
  rw [children, (OrderedMap.get?_eq_none_iff f.nodes x).2 h]
  rfl

namespace Sound

theorem preorder_eq (hf : f.Sound) (x : QueryId) :
    f.preorder x = (f.children x).flatMap fun c => c :: f.preorder c := by
  by_cases hx : x ∈ f.ids
  · rw [preorder, hf.fold_eq _ hx, List.flatMap_map]
  · rw [children_of_not_mem hx, List.flatMap_nil]
    cases h : f.size with
    | zero => simp [preorder, fold, foldFrom, h]
    | succ n => simp [preorder, fold, foldFrom, h, children_of_not_mem hx]

/-- What is below an id is what the id is above. -/
theorem mem_preorder (hf : f.Sound) : y ∈ f.preorder x ↔ x ∈ f.ancestors y := by
  by_cases hx : x ∈ f.ids
  · induction x, hx using hf.induction_down with
    | step x hx ih =>
      rw [hf.preorder_eq, List.mem_flatMap, hf.mem_ancestors_iff_child]
      refine exists_congr fun c => and_congr_right fun hc => ?_
      rw [List.mem_cons, ih c (hf.mem_ancestors_of_mem_children hc)]
  · rw [hf.preorder_eq, children_of_not_mem hx, List.flatMap_nil]
    exact ⟨fun h => absurd h List.not_mem_nil, fun h => absurd (hf.mem_ids_of_mem_ancestors h).1 hx⟩

/-- Two children with a common id below them are the same child. -/
theorem child_unique (hf : f.Sound) {c d : QueryId} (hc : c ∈ f.children x)
    (hd : d ∈ f.children x) (hcy : y = c ∨ c ∈ f.ancestors y) (hdy : y = d ∨ d ∈ f.ancestors y) :
    c = d := by
  have hdepth := (hf.depth_of_mem_children hc).trans (hf.depth_of_mem_children hd).symm
  rcases hcy with rfl | hcy
  · rcases hdy with rfl | hdy
    · rfl
    · have := hf.depth_lt_of_mem_ancestors hdy
      omega
  · rcases hdy with rfl | hdy
    · have := hf.depth_lt_of_mem_ancestors hcy
      omega
    · rcases hf.ancestors_linear hcy hdy with h | h | h
      · exact h
      · have := hf.depth_lt_of_mem_ancestors h
        omega
      · have := hf.depth_lt_of_mem_ancestors h
        omega

theorem nodup_preorder (hf : f.Sound) (x : QueryId) : (f.preorder x).Nodup := by
  by_cases hx : x ∈ f.ids
  · induction x, hx using hf.induction_down with
    | step x hx ih =>
      rw [hf.preorder_eq, List.nodup_flatMap]
      refine ⟨fun c hc => ?_, (hf.nodup_children x).imp_of_mem fun {c d} hc hd hne => ?_⟩
      · refine List.nodup_cons.2 ⟨fun h => ?_, ih c (hf.mem_ancestors_of_mem_children hc)⟩
        exact hf.not_mem_ancestors_self (hf.mem_preorder.1 h)
      · intro y hy hy'
        rw [List.mem_cons, hf.mem_preorder] at hy hy'
        exact hne (hf.child_unique hc hd hy hy')
  · rw [hf.preorder_eq, children_of_not_mem hx]
    exact List.nodup_nil

theorem length_preorder_le (hf : f.Sound) (x : QueryId) : (f.preorder x).length ≤ f.size :=
  length_le_size (hf.nodup_preorder x) fun _ hy =>
    (hf.mem_ids_of_mem_ancestors (hf.mem_preorder.1 hy)).2

/-- With enough steps a tour visits each pending id followed by what is below it, and
leaves nothing pending. -/
theorem tour_eq (hf : f.Sound) {n : ℕ} {pending : List QueryId}
    (hn : (pending.flatMap fun c => c :: f.preorder c).length ≤ n) :
    tour f.children n pending = ⟨pending.flatMap fun c => c :: f.preorder c, []⟩ := by
  induction n generalizing pending with
  | zero =>
    cases pending with
    | nil => rfl
    | cons c rest => simp at hn
  | succ n ih =>
    cases pending with
    | nil => rfl
    | cons c rest =>
      have hsplit : (f.children c ++ rest).flatMap (fun d => d :: f.preorder d) =
          f.preorder c ++ rest.flatMap fun d => d :: f.preorder d := by
        rw [List.flatMap_append, ← hf.preorder_eq]
      rw [tour_cons, ih, hsplit]
      · rfl
      · rw [hsplit]
        simp only [List.flatMap_cons, List.length_append, List.length_cons] at hn ⊢
        omega

theorem descendants_eq_preorder (hf : f.Sound) (x : QueryId) :
    f.descendants x = f.preorder x := by
  have hlen := hf.length_preorder_le x
  rw [hf.preorder_eq] at hlen ⊢
  rw [descendants, hf.tour_eq hlen]

/-- Each child in order, followed by what is below it. -/
theorem descendants_eq (hf : f.Sound) (x : QueryId) :
    f.descendants x = (f.children x).flatMap fun c => c :: f.descendants c := by
  simp only [hf.descendants_eq_preorder]
  exact hf.preorder_eq x

/-- What is below an id is what the id is above. -/
theorem mem_descendants (hf : f.Sound) : y ∈ f.descendants x ↔ x ∈ f.ancestors y := by
  rw [hf.descendants_eq_preorder, hf.mem_preorder]

/-- Nothing is visited twice. -/
theorem nodup_descendants (hf : f.Sound) (x : QueryId) : (f.descendants x).Nodup := by
  rw [hf.descendants_eq_preorder]
  exact hf.nodup_preorder x

end Sound

end ForestPager.Forest
