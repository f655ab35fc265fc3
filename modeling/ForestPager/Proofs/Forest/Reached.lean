import ForestPager.Proofs.Forest.Linked

/-!
# What the roots lead to

The visit that looks for cycles keeps no record of where it has been. It needs none: an
id has one parent, so no id is met twice, cycles or not. Hence as many steps as there are
ids suffice for the visit to end, and what it has visited then is what stands at some
level below a root. Whether dependencies form a forest is thereby said without the visit.

Results:

* `Met.tour`: what a tour keeps while it goes on.
* `pending_tour_eq_nil`: with as many steps as there are ids a tour ends.
* `Dependencies.mem_visited_reach`: what is reached stands at some level.
* `ofDependencies_eq_ok_link_iff`: dependencies form a forest when every id stands at some
  level.
* `ofDependencies_filterKeys`: ids that keep their parents form a forest if all ids do.
-/

namespace ForestPager

/-! ## Tours along links that do not meet -/

/-- No id is a start twice, or the successor of two ids, or of one id twice, and no start is a
successor. -/
structure Branching (next : QueryId → List QueryId) (starts : List QueryId) : Prop where
  nodup_starts : starts.Nodup
  nodup_next : ∀ x, (next x).Nodup
  unique : ∀ x x' y, y ∈ next x → y ∈ next x' → x = x'
  not_next : ∀ y ∈ starts, ∀ x, y ∉ next x

/-- What a tour has visited and what it has still to visit, from given starts. Nothing is met
twice, and what is met are the starts and the successors of visited ids. -/
structure Met (next : QueryId → List QueryId) (starts visited pending : List QueryId) : Prop where
  nodup : (visited ++ pending).Nodup
  origin : ∀ y ∈ visited ++ pending, y ∈ starts ∨ ∃ x ∈ visited, y ∈ next x
  closed : ∀ x ∈ visited, ∀ y ∈ next x, y ∈ visited ++ pending
  starts : ∀ y ∈ starts, y ∈ visited ++ pending

section Tours

variable {next : QueryId → List QueryId} {starts visited pending : List QueryId}

theorem Met.start (hb : Branching next starts) : Met next starts [] starts where
  nodup := hb.nodup_starts
  origin _ hy := .inl hy
  closed _ hx := absurd hx List.not_mem_nil
  starts _ hy := hy

/-- Visiting the first pending id. -/
theorem Met.visit (hb : Branching next starts) {x : QueryId}
    (h : Met next starts visited (x :: pending)) :
    Met next starts (visited ++ [x]) (next x ++ pending) := by
  have hold : ∀ y ∈ visited ++ x :: pending, y ∈ (visited ++ [x]) ++ (next x ++ pending) := by
    intro y hy
    simp only [List.mem_append, List.mem_cons] at hy ⊢
    tauto
  have hperm : ((visited ++ [x]) ++ (next x ++ pending)).Perm
      (next x ++ (visited ++ x :: pending)) := by
    have hsplit : (visited ++ [x]) ++ (next x ++ pending) =
        visited ++ ([x] ++ (next x ++ pending)) := List.append_assoc _ _ _
    rw [hsplit]
    refine (List.Perm.append_left visited ?_).trans (List.perm_append_comm_assoc _ _ _)
    exact List.perm_append_comm_assoc [x] (next x) pending
  refine ⟨?_, ?_, ?_, fun y hy => hold y (h.starts y hy)⟩
  · rw [hperm.nodup_iff, List.nodup_append]
    refine ⟨hb.nodup_next x, h.nodup, ?_⟩
    rintro y hy _ hy' rfl
    -- a successor of `x` that was met before would be that of an id visited before
    rcases h.origin y hy' with hs | ⟨z, hz, hyz⟩
    · exact hb.not_next y hs x hy
    · obtain rfl := hb.unique _ _ _ hy hyz
      exact (List.nodup_append.1 h.nodup).2.2 _ hz _ List.mem_cons_self rfl
  · intro y hy
    rw [hperm.mem_iff, List.mem_append] at hy
    rcases hy with hy | hy
    · exact .inr ⟨x, List.mem_append_right _ List.mem_cons_self, hy⟩
    · refine (h.origin y hy).imp_right ?_
      rintro ⟨z, hz, hyz⟩
      exact ⟨z, List.mem_append_left _ hz, hyz⟩
  · intro z hz y hy
    rcases List.mem_append.1 hz with hz | hz
    · exact hold y (h.closed z hz y hy)
    · rw [List.mem_singleton.1 hz] at hy
      exact List.mem_append_right _ (List.mem_append_left _ hy)

/-- What a tour keeps while it goes on. -/
theorem Met.tour (hb : Branching next starts) (h : Met next starts visited pending) (n : ℕ) :
    Met next starts (visited ++ (tour next n pending).visited) (tour next n pending).pending := by
  induction n generalizing visited pending with
  | zero =>
    rw [tour_zero, List.append_nil]
    exact h
  | succ n ih =>
    cases pending with
    | nil =>
      rw [tour_nil, List.append_nil]
      exact h
    | cons x rest =>
      have hrest := ih (h.visit hb)
      rw [List.append_assoc, List.singleton_append] at hrest
      exact hrest

/-- A tour that is not over has used up its steps. -/
theorem length_visited_of_pending (n : ℕ) (h : (tour next n pending).pending ≠ []) :
    (tour next n pending).visited.length = n := by
  induction n generalizing pending with
  | zero => rfl
  | succ n ih =>
    cases pending with
    | nil => simp at h
    | cons x rest =>
      rw [tour_cons] at h ⊢
      rw [List.length_cons, ih h]

/-- With as many steps as there are ids a tour ends. -/
theorem pending_tour_eq_nil (hb : Branching next starts) (ids : List QueryId)
    (hstarts : ∀ y ∈ starts, y ∈ ids) (hnext : ∀ x, ∀ y ∈ next x, y ∈ ids) {n : ℕ}
    (hn : ids.length ≤ n) : (tour next n starts).pending = [] := by
  have hmet := (Met.start hb).tour hb n
  rw [List.nil_append] at hmet
  by_contra hpending
  have hsub : ∀ y ∈ (tour next n starts).visited ++ (tour next n starts).pending, y ∈ ids := by
    intro y hy
    rcases hmet.origin y hy with hs | ⟨x, -, hx⟩
    · exact hstarts y hs
    · exact hnext x y hx
  have hlen := (List.subperm_of_subset hmet.nodup hsub).length_le
  have hpos := List.length_pos_of_ne_nil hpending
  rw [List.length_append, length_visited_of_pending n hpending] at hlen
  omega

end Tours

/-! ## The visit of dependencies -/

namespace Dependencies

variable (deps : Dependencies)

theorem branching : Branching deps.childrenOf deps.roots where
  nodup_starts := (List.filter_sublist.map Prod.fst).nodup deps.nodup_keys
  nodup_next := Forest.nodup_childrenOf deps
  unique x x' y hx hx' := by
    rw [Forest.mem_childrenOf] at hx hx'
    exact Option.some.inj (Option.some.inj (hx.symm.trans hx'))
  not_next y hy x hx := by
    rw [Forest.mem_roots_iff] at hy
    rw [Forest.mem_childrenOf, hy] at hx
    cases hx

/-- The visit from the roots ends. -/
theorem pending_reach : deps.reach.pending = [] := by
  refine pending_tour_eq_nil deps.branching deps.keys ?_ ?_ (Nat.le_of_eq deps.length_keys)
  · intro y hy
    rw [Forest.mem_roots_iff] at hy
    exact (OrderedMap.mem_keys_iff deps y).2 ⟨_, hy⟩
  · intro x y hy
    rw [Forest.mem_childrenOf] at hy
    exact (OrderedMap.mem_keys_iff deps y).2 ⟨_, hy⟩

/-- What is known of the visit when it has ended. -/
theorem met_reach : Met deps.childrenOf deps.roots deps.reach.visited [] := by
  have h := (Met.start deps.branching).tour deps.branching deps.size
  have hend := deps.pending_reach
  unfold reach at hend ⊢
  rwa [hend, List.nil_append] at h

/-- What is reached stands at some level. -/
theorem mem_visited_reach {x : QueryId} :
    x ∈ deps.reach.visited ↔ ∃ n, deps.link.Level x n := by
  constructor
  · intro hx
    obtain ⟨r, hr, hlink⟩ := exists_link_of_mem_tour _ _ _ hx
    exact Forest.exists_level_link ((Forest.mem_roots_iff deps r).1 hr) hlink
  · rintro ⟨n, hn⟩
    have hmet := deps.met_reach
    induction hn with
    | root hx hr =>
      rw [Forest.ids_link, OrderedMap.mem_keys_iff] at hx
      obtain ⟨parent, hparent⟩ := hx
      rw [Forest.parent?_link, hparent, Option.join_some] at hr
      have hroot := (Forest.mem_roots_iff deps _).2 (hr ▸ hparent)
      simpa using hmet.starts _ hroot
    | child hp hl ih =>
      rw [Forest.parent?_link, Option.join_eq_some_iff] at hp
      simpa using hmet.closed _ ih _ ((Forest.mem_childrenOf deps _ _).2 hp)

theorem mem_unreached {x : QueryId} :
    x ∈ deps.unreached ↔ x ∈ deps.keys ∧ ¬ ∃ n, deps.link.Level x n := by
  rw [← mem_visited_reach]
  simp [unreached]

/-- The unknown parents are those that are named and have no entry. -/
theorem mem_unknownParents {p : QueryId} :
    p ∈ deps.unknownParents ↔ (∃ x, deps.get? x = some (some p)) ∧ p ∉ deps.keys := by
  simp only [unknownParents, mem_distinctIds, List.mem_filterMap, List.mem_filter, Prod.exists,
    OrderedMap.get?_eq_some_iff]
  constructor
  · rintro ⟨x, _, ⟨hmem, hdangling⟩, rfl⟩
    refine ⟨⟨x, hmem⟩, ?_⟩
    simpa [isDangling, ← OrderedMap.contains_iff] using hdangling
  · rintro ⟨⟨x, hmem⟩, hp⟩
    refine ⟨x, some p, ⟨hmem, ?_⟩, rfl⟩
    simpa [isDangling, ← OrderedMap.contains_iff] using hp

end Dependencies

/-! ## When dependencies form a forest -/

namespace Forest

/-- Levels are a matter of parents: an id stands at the same level in a forest that has the
same parents for it and for what is above it. -/
theorem Level.of_parent?_eq {f f' : Forest} {x : QueryId} {n : ℕ} (h : f.Level x n)
    {p : QueryId → Prop} (hx : p x) (hup : ∀ y z, p y → f.parent? y = some z → p z)
    (hids : ∀ y, p y → y ∈ f.ids → y ∈ f'.ids)
    (hparent : ∀ y, p y → f'.parent? y = f.parent? y) : f'.Level x n := by
  induction h with
  | root hi hr => exact .root (hids _ hx hi) ((hparent _ hx).trans hr)
  | child hp _ ih => exact .child ((hparent _ hx).trans hp) (ih (hup _ _ hx hp))

/-- Dependencies form a forest when every id stands at some level. -/
theorem ofDependencies_eq_ok_link_iff {deps : Dependencies} :
    ofDependencies deps = .ok deps.link ↔ ∀ x ∈ deps.keys, ∃ n, deps.link.Level x n := by
  constructor
  · intro h x hx
    rw [← ids_link] at hx
    exact (Sound.of_ofDependencies h).level x hx
  · intro h
    refine ofDependencies_eq_ok.2 ⟨?_, ?_, rfl⟩
    · refine List.eq_nil_iff_forall_not_mem.2 fun p hp => ?_
      obtain ⟨⟨x, hx⟩, hnot⟩ := deps.mem_unknownParents.1 hp
      obtain ⟨n, hn⟩ := h x ((OrderedMap.mem_keys_iff deps x).2 ⟨_, hx⟩)
      have hparent : deps.link.parent? x = some p := by
        rw [parent?_link, hx]
        rfl
      cases hn with
      | root _ hr =>
        rw [hparent] at hr
        cases hr
      | child hp hl =>
        obtain rfl := Option.some.inj (hparent.symm.trans hp)
        exact hnot (ids_link deps ▸ hl.mem_ids)
    · refine List.eq_nil_iff_forall_not_mem.2 fun x hx => ?_
      obtain ⟨hx, hno⟩ := deps.mem_unreached.1 hx
      exact hno (h x hx)

/-- Ids that keep their parents form a forest if all ids do. -/
theorem ofDependencies_filterKeys {deps : Dependencies} {f : Forest}
    (h : ofDependencies deps = .ok f) {p : QueryId → Bool}
    (hp : ∀ x y, p x = true → deps.get? x = some (some y) → p y = true) :
    ofDependencies (deps.filterKeys p) = .ok (Dependencies.link (deps.filterKeys p)) := by
  obtain ⟨-, -, rfl⟩ := ofDependencies_eq_ok.1 h
  have hlevel := ofDependencies_eq_ok_link_iff.1 h
  have hget : ∀ y, p y = true → (deps.filterKeys p).get? y = deps.get? y := by
    intro y hy
    rw [OrderedMap.get?_filterKeys, if_pos hy]
  refine ofDependencies_eq_ok_link_iff.2 fun x hx => ?_
  obtain ⟨v, hv⟩ := (OrderedMap.mem_keys_iff _ x).1 hx
  rw [OrderedMap.get?_filterKeys] at hv
  split at hv
  · next hpx =>
    obtain ⟨n, hn⟩ := hlevel x ((OrderedMap.mem_keys_iff deps x).2 ⟨v, hv⟩)
    refine ⟨n, hn.of_parent?_eq (p := fun y => p y = true) hpx ?_ ?_ ?_⟩
    · intro y z hy hz
      rw [parent?_link, Option.join_eq_some_iff] at hz
      exact hp y z hy hz
    · intro y hy hi
      rw [ids_link, OrderedMap.mem_keys_iff] at hi ⊢
      rw [hget y hy]
      exact hi
    · intro y hy
      rw [parent?_link, parent?_link, hget y hy]
  · cases hv

end Forest

end ForestPager
