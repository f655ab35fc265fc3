import ForestPager.Proofs.Forest.Linking

/-!
# Walks without a bound

A `tour` and a `climb` are given a number of steps to take. Here both walks go on as long as
there is something to go on to, keep no record of where they have been, and look every id they
come to up in a table. Such a walk may go round in a circle, and it may come to an id without
an entry. Neither happens: in the visit from the roots because an id has one parent and no root
leads to a cycle, and in a linked forest because every id hangs on a root.

Results:

* `Visits.unique`, `Climbs.unique`: a walk has one course at most.
* `Visits.of_tour`: a tour that leaves nothing pending is the course of the walk.
* `Dependencies.visits_reachLastFirst`: the visit from the roots, the last pending id first.
* `Forest.Sound.climbs_ancestors`, `Forest.Sound.visits_descendants`: the walks of a forest.
* `walks_end`: all of them end, and within how many steps.
-/

namespace ForestPager

/-! ## The course of a walk -/

/-- Going through pending ids, each replaced by its successors, until none is left: what is
visited, one id for each step. A visit without end, or one that comes to an id without an entry
in the table, visits no list. -/
inductive Visits (table : QueryId → Option (List QueryId)) :
    (pending visited : List QueryId) → Prop
  | done : Visits table [] []
  | step {x : QueryId} {successors pending visited : List QueryId} :
    table x = some successors → Visits table (successors ++ pending) visited →
      Visits table (x :: pending) (x :: visited)

/-- Going from an id to its parent until there is none: what is passed, one id for each step. A
climb without end, or one that comes to an id without an entry in the table, passes no list. -/
inductive Climbs (table : QueryId → Option (Option QueryId)) : QueryId → List QueryId → Prop
  | top {x : QueryId} : table x = some none → Climbs table x []
  | step {x p : QueryId} {above : List QueryId} :
    table x = some (some p) → Climbs table p above → Climbs table x (p :: above)

section Course

variable {table : QueryId → Option (List QueryId)} {next : QueryId → List QueryId}
variable {pending visited visited' : List QueryId}

theorem Visits.unique (h : Visits table pending visited) (h' : Visits table pending visited') :
    visited = visited' := by
  induction h generalizing visited' with
  | done =>
    cases h'
    rfl
  | step hx _ ih =>
    cases h' with
    | step hx' h' =>
      obtain rfl := Option.some.inj (hx.symm.trans hx')
      rw [ih h']

theorem Climbs.unique {table : QueryId → Option (Option QueryId)} {x : QueryId}
    {above above' : List QueryId} (h : Climbs table x above) (h' : Climbs table x above') :
    above = above' := by
  induction h generalizing above' with
  | top hx =>
    cases h' with
    | top => rfl
    | step hx' => simp [hx] at hx'
  | step hx _ ih =>
    cases h' with
    | top hx' => simp [hx] at hx'
    | step hx' h' =>
      obtain rfl := Option.some.inj (Option.some.inj (hx.symm.trans hx'))
      rw [ih h']

/-- A tour that leaves nothing pending is the course of the walk, if the table has the
successors of all it comes to. -/
theorem Visits.of_tour {n : ℕ} (hend : (tour next n pending).pending = [])
    (hnext : ∀ x ∈ (tour next n pending).visited, table x = some (next x)) :
    Visits table pending (tour next n pending).visited := by
  induction n generalizing pending with
  | zero =>
    rw [tour_zero] at hend ⊢
    obtain rfl : pending = [] := hend
    exact .done
  | succ n ih =>
    cases pending with
    | nil =>
      rw [tour_nil]
      exact .done
    | cons x rest =>
      rw [tour_cons] at hend hnext ⊢
      refine .step (hnext x List.mem_cons_self) (ih hend ?_)
      intro y hy
      exact hnext y (List.mem_cons_of_mem _ hy)

end Course

/-! ## The visit from the roots -/

/-- That no two ids share a successor does not depend on the order in which starts and
successors are listed. -/
theorem Branching.reverse {next : QueryId → List QueryId} {starts : List QueryId}
    (h : Branching next starts) : Branching (fun x => (next x).reverse) starts.reverse where
  nodup_starts := List.nodup_reverse.2 h.nodup_starts
  nodup_next x := List.nodup_reverse.2 (h.nodup_next x)
  unique x x' y hx hx' := h.unique x x' y (List.mem_reverse.1 hx) (List.mem_reverse.1 hx')
  not_next y hy x hx := h.not_next y (List.mem_reverse.1 hy) x (List.mem_reverse.1 hx)

namespace Forest

/-- The entry of an id in the table of children. -/
def children? (f : Forest) (x : QueryId) : Option (List QueryId) :=
  (f.nodes.get? x).map (·.children)

/-- The entry of an id in the table of parents. -/
def parentOf? (f : Forest) (x : QueryId) : Option (Option QueryId) :=
  (f.nodes.get? x).map (·.parent)

variable {f : Forest} {x : QueryId}

theorem children?_eq (hx : x ∈ f.ids) : f.children? x = some (f.children x) := by
  obtain ⟨node, hnode⟩ := (OrderedMap.mem_keys_iff _ x).1 hx
  simp [children?, children, hnode]

theorem parentOf?_eq (hx : x ∈ f.ids) : f.parentOf? x = some (f.parent? x) := by
  obtain ⟨node, hnode⟩ := (OrderedMap.mem_keys_iff _ x).1 hx
  simp [parentOf?, parent?, hnode]

end Forest

namespace Dependencies

/-- The children of an id in the table, the last one first. -/
def lastChildFirst? (deps : Dependencies) (x : QueryId) : Option (List QueryId) :=
  (deps.link.children? x).map List.reverse

/-- The visit of everything below the roots that always takes the last pending id; what is
pending is listed from the last id to the first. -/
def reachLastFirst (deps : Dependencies) : Tour :=
  tour (fun x => (deps.childrenOf x).reverse) deps.size deps.roots.reverse

variable (deps : Dependencies) {x y : QueryId}

theorem mem_keys_of_get? {v : Option QueryId} (h : deps.get? x = some v) : x ∈ deps.keys :=
  (OrderedMap.mem_keys_iff deps x).2 ⟨v, h⟩

theorem mem_reverse_roots : x ∈ deps.roots.reverse ↔ deps.get? x = some none := by
  rw [List.mem_reverse, Forest.mem_roots_iff]

theorem mem_reverse_childrenOf : y ∈ (deps.childrenOf x).reverse ↔ deps.ContinuesFrom y x := by
  rw [List.mem_reverse, Forest.mem_childrenOf, ContinuesFrom]

/-- With as many steps as there are ids the visit ends, with or without cycles. -/
theorem pending_reachLastFirst : deps.reachLastFirst.pending = [] := by
  refine pending_tour_eq_nil deps.branching.reverse deps.keys ?_ ?_ (Nat.le_of_eq deps.length_keys)
  · intro y hy
    exact deps.mem_keys_of_get? (deps.mem_reverse_roots.1 hy)
  · intro x y hy
    exact deps.mem_keys_of_get? (deps.mem_reverse_childrenOf.1 hy)

/-- What is known of the visit when it has ended. -/
theorem met_reachLastFirst : Met (fun x => (deps.childrenOf x).reverse) deps.roots.reverse
    deps.reachLastFirst.visited [] := by
  have h := (Met.start deps.branching.reverse).tour deps.branching.reverse deps.size
  have hend := deps.pending_reachLastFirst
  unfold reachLastFirst at hend ⊢
  rwa [hend, List.nil_append] at h

/-- What is visited hangs on a root. -/
theorem mem_visited_reachLastFirst : x ∈ deps.reachLastFirst.visited ↔ deps.Rooted x := by
  constructor
  · intro hx
    obtain ⟨r, hr, hlink⟩ := exists_link_of_mem_tour _ _ _ hx
    clear hx
    induction hlink with
    | refl => exact .root (deps.mem_reverse_roots.1 hr)
    | tail _ hy ih => exact .child (deps.mem_reverse_childrenOf.1 hy) ih
  · intro hx
    have hmet := deps.met_reachLastFirst
    induction hx with
    | root hx => simpa using hmet.starts _ (deps.mem_reverse_roots.2 hx)
    | child hp _ ih => simpa using hmet.closed _ ih _ (deps.mem_reverse_childrenOf.2 hp)

/-- Without a bound the visit has the same course, and all it comes to has an entry. -/
theorem visits_reachLastFirst :
    Visits deps.lastChildFirst? deps.roots.reverse deps.reachLastFirst.visited := by
  refine .of_tour deps.pending_reachLastFirst fun x hx => ?_
  have hkeys : x ∈ deps.keys := by
    cases deps.mem_visited_reachLastFirst.1 hx with
    | root h => exact deps.mem_keys_of_get? h
    | child h => exact deps.mem_keys_of_get? h
  have hids : x ∈ deps.link.ids := by rwa [Forest.ids_link]
  rw [lastChildFirst?, Forest.children?_eq hids, Forest.children_link hkeys]
  rfl

/-- Both orders visit the same ids. -/
theorem perm_reachLastFirst : deps.reachLastFirst.visited.Perm deps.reach.visited := by
  have hlast : deps.reachLastFirst.visited.Nodup := by simpa using deps.met_reachLastFirst.nodup
  have hfirst : deps.reach.visited.Nodup := by simpa using deps.met_reach.nodup
  refine (List.perm_ext_iff_of_nodup hlast hfirst).2 fun x => ?_
  rw [mem_visited_reachLastFirst, rooted_iff_level, mem_visited_reach]

end Dependencies

/-! ## The walks of a forest -/

namespace Forest.Sound

variable {f : Forest} {x : QueryId}

/-- The climb from an id passes its ancestors. -/
theorem climbs_ancestors (hf : f.Sound) (hx : x ∈ f.ids) :
    Climbs f.parentOf? x (f.ancestors x) := by
  induction x, hx using hf.induction_up with
  | root x hx hr =>
    rw [ancestors_of_root hr]
    exact .top (by rw [parentOf?_eq hx, hr])
  | child x p hp ih =>
    rw [hf.ancestors_of_parent hp]
    exact .step (by rw [parentOf?_eq (mem_ids_of_parent hp), hp]) ih

/-- The visit from the children of an id visits what is below it. -/
theorem visits_descendants (hf : f.Sound) (x : QueryId) :
    Visits f.children? (f.children x) (f.descendants x) := by
  have hlen : ((f.children x).flatMap fun c => c :: f.preorder c).length ≤ f.size := by
    rw [← hf.preorder_eq]
    exact hf.length_preorder_le x
  refine .of_tour (by rw [hf.tour_eq hlen]) fun y hy => children?_eq ?_
  exact (hf.mem_ids_of_mem_ancestors (hf.mem_descendants.1 hy)).2

theorem length_descendants_lt_size (hf : f.Sound) (hx : x ∈ f.ids) :
    (f.descendants x).length < f.size := by
  have hself : x ∉ f.descendants x := fun h => hf.not_mem_ancestors_self (hf.mem_descendants.1 h)
  have hids : ∀ y ∈ x :: f.descendants x, y ∈ f.ids := by
    intro y hy
    rcases List.mem_cons.1 hy with rfl | hy
    · exact hx
    · exact (hf.mem_ids_of_mem_ancestors (hf.mem_descendants.1 hy)).2
  exact length_le_size (List.nodup_cons.2 ⟨hself, hf.nodup_descendants x⟩) hids

end Forest.Sound

/-! ## No walk goes on for ever -/

/-- Every walk ends. For any dependencies, with cycles or without, the visit from the roots that
takes the last pending id first has one course: it visits the ids that hang on a root, each once
and in other words those of `reach`, so that it takes no more steps than there are ids. And in a
linked forest the climb from an id and the visit from its children have one course each, the
ancestors and the descendants; both take fewer steps than the forest has ids, and all they come
to has an entry. -/
theorem walks_end (deps : Dependencies) :
    (∃ popped, (∀ visited, Visits deps.lastChildFirst? deps.roots.reverse visited ↔
        visited = popped) ∧
      popped.Nodup ∧ popped.Perm deps.reach.visited ∧ (∀ x, x ∈ popped ↔ deps.Rooted x) ∧
      popped.length ≤ deps.size) ∧
    ∀ f, Forest.ofDependencies deps = .ok f → ∀ x ∈ f.ids,
      (∀ above, Climbs f.parentOf? x above ↔ above = f.ancestors x) ∧
      (f.ancestors x).length < f.size ∧
      (∀ below, Visits f.children? (f.children x) below ↔ below = f.descendants x) ∧
      (f.descendants x).length < f.size := by
  constructor
  · have hvisits := deps.visits_reachLastFirst
    refine ⟨deps.reachLastFirst.visited, fun _ => ⟨fun h => h.unique hvisits, fun h => h ▸ hvisits⟩,
      ?_, deps.perm_reachLastFirst, fun _ => deps.mem_visited_reachLastFirst,
      length_visited_le _ _ _⟩
    simpa using deps.met_reachLastFirst.nodup
  · intro f h x hx
    have hf := Forest.Sound.of_ofDependencies h
    have hclimbs := hf.climbs_ancestors hx
    have hvisits := hf.visits_descendants x
    exact ⟨fun _ => ⟨fun h => h.unique hclimbs, fun h => h ▸ hclimbs⟩, hf.depth_lt_size hx,
      fun _ => ⟨fun h => h.unique hvisits, fun h => h ▸ hvisits⟩,
      hf.length_descendants_lt_size hx⟩

/-- Beside two cycles the visit comes to the root and its child only. In two trees the climb from
`e` and the visit below `a` end. -/
theorem walks_end_circular_scattered :
    (∀ visited, Visits Forest.circular.lastChildFirst? ["a"] visited ↔ visited = ["a", "b"]) ∧
    Forest.ofDependencies Forest.scattered = .ok Forest.scattered.link ∧
      (∀ above, Climbs Forest.scattered.link.parentOf? "e" above ↔ above = ["c", "a"]) ∧
      (∀ below, Visits Forest.scattered.link.children? ["b", "c"] below ↔
        below = ["b", "d", "c", "e"]) ∧
      (Forest.scattered.link.descendants "a").length < 6 := by
  obtain ⟨⟨popped, hpopped, -⟩, -⟩ := walks_end Forest.circular
  have hroot : Forest.circular.lastChildFirst? "a" = some ["b"] := by decide +kernel
  have hchild : Forest.circular.lastChildFirst? "b" = some [] := by decide +kernel
  have hvisits : Visits Forest.circular.lastChildFirst? ["a"] ["a", "b"] :=
    .step hroot (.step hchild .done)
  obtain rfl := (hpopped _).1 hvisits
  have hlink : Forest.ofDependencies Forest.scattered = .ok Forest.scattered.link := by
    decide +kernel
  have hforest := (walks_end Forest.scattered).2 _ hlink
  obtain ⟨hclimbs, -, -, -⟩ := hforest "e" (by decide +kernel)
  obtain ⟨-, -, hbelow, hlength⟩ := hforest "a" (by decide +kernel)
  have habove : Forest.scattered.link.ancestors "e" = ["c", "a"] := by decide +kernel
  have hdescendants : Forest.scattered.link.descendants "a" = ["b", "d", "c", "e"] := by
    decide +kernel
  rw [habove] at hclimbs
  rw [hdescendants] at hbelow
  exact ⟨hpopped, hlink, hclimbs, hbelow, hlength⟩

end ForestPager
