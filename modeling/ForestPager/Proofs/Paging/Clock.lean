import ForestPager.Proofs.Paging.Cycles

/-!
# Fixed numbers of pages: the clock of a run

When the numbers of pages do not depend on anything, a run is a clock: the number of a
request decides how far each tree of the forest is, and that decides the page of the id
at its top.

Results:

* `Paging.Timed.busy_iff`: a tree has something to go on with as long as it has requests
  left.
* `Paging.Timed.moves`: what becomes of an id from one request to the next.
* `Paging.timed`: every request asks for the pages that the clock shows.
* `Paging.live_iff`: the run goes on as long as one of the trees has requests left.
* `Paging.exists_not_live_of_fixed`: the run comes to an end.
-/

namespace ForestPager.Paging

variable {g : Paging} {x y p l : QueryId} {st : Standing} {n i j : ℕ}

/-! ## The clock -/

/-- At request number `n` of the run, the tree under an id is at its own request number
`i`, counted from when it last started over. -/
inductive Clock (g : Paging) (n : ℕ) : QueryId → ℕ → Prop
  | root {x : QueryId} : x ∈ g.forest.ids → g.forest.parent? x = none → n < g.span x →
      Clock g n x n
  | child {x p : QueryId} {i : ℕ} : g.forest.parent? x = some p → Clock g n p i →
      i % g.cycle p < g.span x → Clock g n x (i % g.cycle p)

/-- The page that the clock shows. -/
def pageAt (g : Paging) (x : QueryId) (i : ℕ) : ℕ := stage (g.cycle x) i % g.reach x

theorem pageAt_zero : g.pageAt x 0 = 0 := by simp [pageAt]

theorem pageAt_of_excluded (he : g.excluded.contains x = true) : g.pageAt x i = 0 := by
  rw [pageAt, reach, if_pos he, Nat.mod_one]

namespace Clock

theorem root_eq (h : g.Clock n x i) (hr : g.forest.parent? x = none) : i = n := by
  cases h with
  | root _ _ _ => rfl
  | child hp _ _ => simp [hr] at hp

theorem parent (h : g.Clock n x i) (hp : g.forest.parent? x = some p) :
    ∃ j, g.Clock n p j ∧ i = j % g.cycle p := by
  cases h with
  | root _ hr _ => simp [hr] at hp
  | child hp' h' _ =>
    obtain rfl := Option.some.inj (hp.symm.trans hp')
    exact ⟨_, h', rfl⟩

theorem unique (h : g.Clock n x i) (h' : g.Clock n x j) : i = j := by
  induction h generalizing j with
  | root _ hr _ => exact (h'.root_eq hr).symm
  | child hp _ _ ih =>
    obtain ⟨k, hk, rfl⟩ := h'.parent hp
    rw [ih hk]

theorem lt_span (h : g.Clock n x i) : i < g.span x := by
  cases h with
  | root _ _ h => exact h
  | child _ _ h => exact h

theorem mem_ids (h : g.Clock n x i) : x ∈ g.forest.ids := by
  cases h with
  | root h _ _ => exact h
  | child hp _ _ => exact Forest.mem_ids_of_parent hp

/-- What is above a running tree is running. -/
theorem of_ancestor (hf : g.forest.Sound) (h : g.Clock n x i) (hy : y ∈ g.forest.ancestors x) :
    ∃ j, g.Clock n y j := by
  induction h with
  | root _ hr _ => simp [Forest.ancestors_of_root hr] at hy
  | child hp hc _ ih =>
    rw [hf.ancestors_of_parent hp, List.mem_cons] at hy
    rcases hy with rfl | hy
    · exact ⟨_, hc⟩
    · exact ih hy

/-- A running tree is in a running tree of the forest. -/
theorem exists_root (h : g.Clock n x i) :
    ∃ r ∈ g.forest.ids, g.forest.parent? r = none ∧ n < g.span r := by
  induction h with
  | root hx hr hlt => exact ⟨_, hx, hr, hlt⟩
  | child _ _ _ ih => exact ih

/-- Below an id that has just started over, everything has. -/
theorem restart (hf : g.forest.Sound) (h : g.Clock n p 0) (hp : g.forest.parent? x = some p) :
    g.Clock n x 0 := by
  have hc := Clock.child hp h (by
    rw [Nat.zero_mod]
    exact one_le_span hf (Forest.mem_ids_of_parent hp))
  rwa [Nat.zero_mod] at hc

end Clock

/-- At the start everything is at its first request. -/
theorem clock_zero (hf : g.forest.Sound) (hx : x ∈ g.forest.ids) : g.Clock 0 x 0 := by
  induction x, hx using hf.induction_up with
  | root x hx hr => exact .root hx hr (one_le_span hf hx)
  | child x p hp ih => exact ih.restart hf hp

/-! ## Runs follow the clock -/

/-- At a request of the run, the pages asked for are those that the clock shows, and an id
in the middle of a cycle has been offered the page of the next request. -/
structure Timed (g : Paging) (n : ℕ) : Prop where
  asked : ∀ x p, g.askedAt n x = some p ↔ ∃ i, g.Clock n x i ∧ p = g.pageAt x i
  earlier : ∀ x i, g.Clock n x i → g.excluded.contains x = false → ¬ g.cycle x ∣ i + 1 →
    (g.run n).earlier x = g.pageAt x (i + 1)

/-- Something at or below an id has a page to go on with. -/
def Busy (g : Paging) (st : Standing) (x : QueryId) : Prop :=
  ∃ y ∈ g.forest.ids, (y = x ∨ x ∈ g.forest.ancestors y) ∧ g.excluded.contains y = false ∧
    st.cursors y ≠ 0

theorem Leaf.busy (h : g.Leaf st l) (hx : l = x ∨ x ∈ g.forest.ancestors l) : g.Busy st x :=
  ⟨l, h.1, hx, h.2.1, h.2.2.1⟩

theorem Busy.exists_leaf (hf : g.forest.Sound) (h : g.Busy st x) :
    ∃ l, g.Leaf st l ∧ (l = x ∨ x ∈ g.forest.ancestors l) := by
  obtain ⟨y, hy, hyx, he, hc⟩ := h
  obtain ⟨l, hl, hly⟩ := Paging.exists_leaf hf hy he hc
  refine ⟨l, hl, ?_⟩
  rcases hyx with rfl | hyx
  · exact hly
  · rcases hly with rfl | hly
    · exact .inr hyx
    · exact .inr (hf.ancestors_trans hyx hly)

theorem busy_iff_child (hf : g.forest.Sound) (hx : x ∈ g.forest.ids) :
    g.Busy st x ↔ (∃ c ∈ g.forest.children x, g.Busy st c) ∨
      (g.excluded.contains x = false ∧ st.cursors x ≠ 0) := by
  constructor
  · rintro ⟨y, hy, rfl | hyx, he, hc⟩
    · exact .inr ⟨he, hc⟩
    · obtain ⟨c, hcx, hcy⟩ := hf.mem_ancestors_iff_child.1 hyx
      exact .inl ⟨c, hcx, y, hy, hcy, he, hc⟩
  · rintro (⟨c, hcx, y, hy, hcy, he, hc⟩ | ⟨he, hc⟩)
    · exact ⟨y, hy, .inr (hf.mem_ancestors_iff_child.2 ⟨c, hcx, hcy⟩), he, hc⟩
    · exact ⟨x, hx, .inl rfl, he, hc⟩

/-- Nothing below a leaf has to go on. -/
theorem Leaf.not_busy_child (hf : g.forest.Sound) (h : g.Leaf st x) {c : QueryId}
    (hc : c ∈ g.forest.children x) : ¬ g.Busy st c := by
  rintro ⟨y, -, hyc, he, hcur⟩
  exact hcur (h.2.2.2 y (hf.mem_ancestors_iff_child.2 ⟨c, hc, hyc⟩) he)

/-- What becomes of an id from one request to the next: it goes on, it starts over below a leaf,
or it is not asked for. -/
inductive Moves (g : Paging) (n : ℕ) (x : QueryId) : Prop
  | onward {i : ℕ} : g.Clock n x i → g.Clock (n + 1) x (i + 1) →
      (∀ l, g.Leaf (g.run n) l → l ∉ g.forest.ancestors x) → Moves g n x
  | again {l : QueryId} : g.Leaf (g.run n) l → l ∈ g.forest.ancestors x → g.Clock (n + 1) x 0 →
      Moves g n x
  | idle : (∀ i, ¬ g.Clock (n + 1) x i) → (∀ l, g.Leaf (g.run n) l →
      l ≠ x ∧ l ∉ g.forest.ancestors x ∧ x ∉ g.forest.ancestors l) → Moves g n x

/-- What is below an id that is not asked for is not asked for. -/
theorem Moves.of_idle (hf : g.forest.Sound) (hp : g.forest.parent? x = some p)
    (hno : ∀ i, ¬ g.Clock (n + 1) p i) (hleaf : ∀ l, g.Leaf (g.run n) l →
      l ≠ p ∧ l ∉ g.forest.ancestors p ∧ p ∉ g.forest.ancestors l) : g.Moves n x := by
  have hpx : p ∈ g.forest.ancestors x := hf.mem_ancestors_iff.2 ⟨p, hp, .inl rfl⟩
  refine .idle (fun j hj => ?_) fun l hl => ?_
  · obtain ⟨i, hi, -⟩ := hj.parent hp
    exact hno i hi
  · obtain ⟨hne, habove, hbelow⟩ := hleaf l hl
    refine ⟨?_, ?_, fun hxl => hbelow (hf.ancestors_trans hpx hxl)⟩
    · rintro rfl
      exact hbelow hpx
    · rw [hf.ancestors_of_parent hp, List.mem_cons]
      rintro (rfl | hlp)
      · exact hne rfl
      · exact habove hlp

namespace Timed

theorem not_busy_of_not_clock (hf : g.forest.Sound) (h : g.Timed n)
    (hno : ∀ i, ¬ g.Clock n x i) : ¬ g.Busy (g.run n) x := by
  rintro ⟨y, -, hyx, -, hc⟩
  rw [cursors_run] at hc
  obtain ⟨p, hp, -⟩ := eq_of_offered_ne_zero hc
  obtain ⟨i, hi, -⟩ := (h.asked y p).1 hp
  rcases hyx with rfl | hyx
  · exact hno i hi
  · obtain ⟨j, hj⟩ := hi.of_ancestor hf hyx
    exact hno j hj

/-- An id that is not excluded is offered the page after the one that it shows. -/
theorem cursors_eq (hg : g.Fixed) (h : g.Timed n) (hc : g.Clock n x i)
    (he : g.excluded.contains x = false) :
    (g.run n).cursors x = (stage (g.cycle x) i + 1) % g.reach x := by
  have hreach : g.reach x = max 1 (g.count x []) := by simp [reach, he]
  have hlt : g.pageAt x i < g.reach x := Nat.mod_lt _ (one_le_reach x)
  rw [cursors_run, offered_of_some ((h.asked x _).2 ⟨i, hc, rfl⟩), hg, ← Nat.mod_add_mod, ← pageAt]
  split
  · rw [Nat.mod_eq_of_lt (by omega)]
  · have hlast : g.pageAt x i + 1 = g.reach x := by omega
    rw [hlast, Nat.mod_self]

/-- Something below an id has to go on unless the id is at the end of a cycle. -/
theorem exists_busy_child_iff (hf : g.forest.Sound) (h : g.Timed n) (hc : g.Clock n x i)
    (ih : ∀ c ∈ g.forest.children x, ∀ j, g.Clock n c j →
      (g.Busy (g.run n) c ↔ j + 1 < g.span c)) :
    (∃ c ∈ g.forest.children x, g.Busy (g.run n) c) ↔ ¬ g.cycle x ∣ i + 1 := by
  have hm := one_le_cycle (g := g) x
  constructor
  · rintro ⟨c, hcx, hb⟩ hd
    have hlast := mod_add_one_of_dvd hm hd
    by_cases hclock : ∃ j, g.Clock n c j
    · obtain ⟨j, hj⟩ := hclock
      have hlt := (ih c hcx j hj).1 hb
      obtain ⟨i', hi', rfl⟩ := hj.parent ((hf.mem_children x c).1 hcx)
      obtain rfl := hi'.unique hc
      have hlong : g.cycle x < longest ((g.forest.children x).map g.span) :=
        (lt_longest_iff hm).2 ⟨_, List.mem_map_of_mem hcx, by omega⟩
      exact absurd hlong (Nat.lt_irrefl _)
    · exact h.not_busy_of_not_clock hf (not_exists.1 hclock) hb
  · intro hd
    obtain ⟨-, hlt⟩ := mod_add_one_of_not_dvd hm hd
    obtain ⟨b, hb, hltb⟩ := (lt_longest_iff (by omega)).1 hlt
    obtain ⟨c, hcx, rfl⟩ := List.mem_map.1 hb
    exact ⟨c, hcx, (ih c hcx _ (.child ((hf.mem_children x c).1 hcx) hc (by omega))).2 hltb⟩

/-- A running tree has to go on exactly if it has requests left. -/
theorem busy_iff (hg : g.Fixed) (hf : g.forest.Sound) (h : g.Timed n) (hc : g.Clock n x i) :
    g.Busy (g.run n) x ↔ i + 1 < g.span x := by
  have hx := hc.mem_ids
  induction x, hx using hf.induction_down generalizing i with
  | step x hx ih =>
    have hm := one_le_cycle (g := g) x
    have hlt := hc.lt_span
    rw [busy_iff_child hf hx, h.exists_busy_child_iff hf hc fun c hcx j hj =>
      ih c (hf.mem_ancestors_of_mem_children hcx) hj]
    -- at the end of a cycle the own cursor of `x` decides, within one what is below it
    by_cases hd : g.cycle x ∣ i + 1
    · cases he : g.excluded.contains x with
      | false =>
        rw [span_eq hf hx] at hlt ⊢
        rw [h.cursors_eq hg hc he, ← stage_succ_of_dvd hm hd, ←
          stage_mod_ne_zero_iff (one_le_reach x) hm hlt hd]
        simp [hd]
      | true =>
        rw [span_of_excluded hf hx he] at hlt ⊢
        have := Nat.le_of_dvd (Nat.succ_pos i) hd
        simp [hd]
        omega
    · have hne : i + 1 ≠ g.span x := by
        rw [span_eq hf hx]
        exact fun heq => hd (heq ▸ Nat.dvd_mul_right _ _)
      simp only [hd, not_false_eq_true, true_or, true_iff]
      omega

theorem busy_below_iff (hg : g.Fixed) (hf : g.forest.Sound) (h : g.Timed n)
    (hc : g.Clock n x i) :
    (∃ c ∈ g.forest.children x, g.Busy (g.run n) c) ↔ ¬ g.cycle x ∣ i + 1 :=
  h.exists_busy_child_iff hf hc fun _ _ _ hj => h.busy_iff hg hf hj

/-- What is not below a leaf goes on or is not asked for. -/
theorem moves_of_not_below (hg : g.Fixed) (hf : g.forest.Sound) (h : g.Timed n)
    (hleaf : ∀ l, g.Leaf (g.run n) l → l ∉ g.forest.ancestors x)
    (hnext : ∀ i, g.Clock n x i → i + 1 < g.span x → g.Clock (n + 1) x (i + 1))
    (hprev : ∀ j, g.Clock (n + 1) x j → ∃ i, g.Clock n x i ∧ j = i + 1) : g.Moves n x := by
  by_cases hgo : ∃ i, g.Clock n x i ∧ i + 1 < g.span x
  · obtain ⟨i, hi, hlt⟩ := hgo
    exact .onward hi (hnext i hi hlt) hleaf
  · have hbusy : ¬ g.Busy (g.run n) x := by
      intro hb
      by_cases hclock : ∃ i, g.Clock n x i
      · obtain ⟨i, hi⟩ := hclock
        exact hgo ⟨i, hi, (h.busy_iff hg hf hi).1 hb⟩
      · exact h.not_busy_of_not_clock hf (not_exists.1 hclock) hb
    refine .idle (fun j hj => ?_) fun l hl => ⟨?_, hleaf l hl, ?_⟩
    · obtain ⟨i, hi, rfl⟩ := hprev j hj
      exact hgo ⟨i, hi, hj.lt_span⟩
    · exact fun hlx => hbusy (hl.busy (.inl hlx))
    · exact fun hlx => hbusy (hl.busy (.inr hlx))

/-- At the end of a cycle of an id that goes on, what is below starts over: the id itself is
the leaf. -/
theorem moves_of_end (hg : g.Fixed) (hf : g.forest.Sound) (h : g.Timed n)
    (hp : g.forest.parent? x = some p) (hc : g.Clock n p i) (hc' : g.Clock (n + 1) p (i + 1))
    (hd : g.cycle p ∣ i + 1) : g.Moves n x := by
  obtain ⟨l, hl, hlp⟩ := ((h.busy_iff hg hf hc).2 hc'.lt_span).exists_leaf hf
  rcases hlp with rfl | hlp
  · refine .again hl (hf.mem_ancestors_iff.2 ⟨l, hp, .inl rfl⟩) ?_
    have hclock := Clock.child hp hc' (by
      rw [Nat.mod_eq_zero_of_dvd hd]
      exact one_le_span hf (Forest.mem_ids_of_parent hp))
    rwa [Nat.mod_eq_zero_of_dvd hd] at hclock
  · obtain ⟨c, hcp, hlc⟩ := hf.mem_ancestors_iff_child.1 hlp
    exact absurd hd ((h.busy_below_iff hg hf hc).1 ⟨c, hcp, hl.busy hlc⟩)

/-- Within a cycle of an id that goes on, the id is no leaf, and what is below goes on. -/
theorem moves_of_within (hg : g.Fixed) (hf : g.forest.Sound) (h : g.Timed n)
    (hp : g.forest.parent? x = some p) (hc : g.Clock n p i) (hc' : g.Clock (n + 1) p (i + 1))
    (hleaf : ∀ l, g.Leaf (g.run n) l → l ∉ g.forest.ancestors p) (hd : ¬ g.cycle p ∣ i + 1) :
    g.Moves n x := by
  obtain ⟨hmod, -⟩ := mod_add_one_of_not_dvd (one_le_cycle p) hd
  obtain ⟨c, hcp, hb⟩ := (h.busy_below_iff hg hf hc).2 hd
  refine h.moves_of_not_below hg hf ?_ ?_ ?_
  · intro l hl hlx
    rw [hf.ancestors_of_parent hp, List.mem_cons] at hlx
    rcases hlx with rfl | hlx
    · exact hl.not_busy_child hf hcp hb
    · exact hleaf l hl hlx
  · intro k hk hlt
    obtain ⟨i', hi', rfl⟩ := hk.parent hp
    obtain rfl := hi'.unique hc
    rw [← hmod] at hlt ⊢
    exact .child hp hc' hlt
  · intro j hj
    have hlt := hj.lt_span
    obtain ⟨i', hi', rfl⟩ := hj.parent hp
    obtain rfl := hi'.unique hc'
    rw [hmod] at hlt ⊢
    exact ⟨_, .child hp hc (by omega), rfl⟩

/-- What becomes of an id is decided from its parent. -/
theorem moves (hg : g.Fixed) (hf : g.forest.Sound) (h : g.Timed n) (hx : x ∈ g.forest.ids) :
    g.Moves n x := by
  induction x, hx using hf.induction_up with
  | root x hx hr =>
    refine h.moves_of_not_below hg hf (fun l _ => by simp [Forest.ancestors_of_root hr]) ?_ ?_
    · intro i hi hlt
      obtain rfl := hi.root_eq hr
      exact .root hx hr hlt
    · intro j hj
      have hlt := hj.lt_span
      obtain rfl := hj.root_eq hr
      exact ⟨n, .root hx hr (by omega), rfl⟩
  | child x p hp ih =>
    cases ih with
    | onward hc hc' hleaf =>
      next i =>
      by_cases hd : g.cycle p ∣ i + 1
      · exact h.moves_of_end hg hf hp hc hc' hd
      · exact h.moves_of_within hg hf hp hc hc' hleaf hd
    | again hl hlp hc' =>
      exact .again hl (hf.mem_ancestors_iff.2 ⟨p, hp, .inr hlp⟩) (hc'.restart hf hp)
    | idle hno hleaf => exact .of_idle hf hp hno hleaf

/-- An id that goes on is asked for the page that the clock shows next. -/
theorem asked_onward (hg : g.Fixed) (hf : g.forest.Sound) (h : g.Timed n) (hc : g.Clock n x i)
    (hc' : g.Clock (n + 1) x (i + 1)) : g.asked (g.run n) x = some (g.pageAt x (i + 1)) := by
  have hm := one_le_cycle (g := g) x
  obtain ⟨l, hl, hlx⟩ := ((h.busy_iff hg hf hc).2 hc'.lt_span).exists_leaf hf
  rcases hlx with rfl | hlx
  · have hd : g.cycle l ∣ i + 1 := by
      by_contra hd
      obtain ⟨c, hcl, hb⟩ := (h.busy_below_iff hg hf hc).2 hd
      exact hl.not_busy_child hf hcl hb
    rw [asked_leaf hl, h.cursors_eq hg hc hl.2.1, ← stage_succ_of_dvd hm hd]
    rfl
  · rw [asked_above hf hl hlx]
    cases he : g.excluded.contains x with
    | true => rw [pageAt_of_excluded he, if_pos rfl]
    | false =>
      have hd : ¬ g.cycle x ∣ i + 1 := by
        obtain ⟨c, hcx, hlc⟩ := hf.mem_ancestors_iff_child.1 hlx
        exact (h.busy_below_iff hg hf hc).1 ⟨c, hcx, hl.busy hlc⟩
      rw [h.earlier x i hc he hd, if_neg Bool.false_ne_true]

/-- One request further, the run still follows the clock. -/
theorem succ (hg : g.Fixed) (hf : g.forest.Sound) (h : g.Timed n) : g.Timed (n + 1) where
  asked x p := by
    rw [askedAt_succ]
    constructor
    · intro ha
      have hx : x ∈ g.forest.ids := mem_ids_of_asked hf ((askedAt_succ n).symm ▸ ha)
      cases h.moves hg hf hx with
      | onward hc hc' _ =>
        rw [h.asked_onward hg hf hc hc', Option.some.injEq] at ha
        exact ⟨_, hc', ha.symm⟩
      | again hl hlx hc' =>
        rw [asked_below hl hlx, Option.some.injEq] at ha
        exact ⟨0, hc', by rw [← ha, pageAt_zero]⟩
      | idle _ hleaf => simp [asked_elsewhere hleaf] at ha
    · rintro ⟨j, hj, rfl⟩
      cases h.moves hg hf hj.mem_ids with
      | onward hc hc' _ =>
        obtain rfl := hj.unique hc'
        exact h.asked_onward hg hf hc hc'
      | again hl hlx hc' =>
        obtain rfl := hj.unique hc'
        rw [asked_below hl hlx, pageAt_zero]
      | idle hno _ => exact absurd hj (hno j)
  earlier x j hj he hd := by
    have hm := one_le_cycle (g := g) x
    rw [earlier_run_succ]
    cases h.moves hg hf hj.mem_ids with
    | onward hc hc' _ =>
      obtain rfl := hj.unique hc'
      rw [h.cursors_eq hg hc he, ← stage_add_two hm hd]
      rfl
    | again hl hlx hc' =>
      obtain rfl := hj.unique hc'
      rw [hl.2.2.2 x hlx he, pageAt, stage_one hd hm, Nat.zero_mod]
    | idle hno _ => exact absurd hj (hno j)

end Timed

/-- Every request asks for the pages that the clock shows. -/
theorem timed (hg : g.Fixed) (hf : g.forest.Sound) (n : ℕ) : g.Timed n := by
  induction n with
  | zero =>
    refine ⟨fun x p => ⟨fun ha => ?_, ?_⟩, fun x i hi he hd => ?_⟩
    · have hx := mem_ids_of_asked hf ha
      rw [askedAt_zero hx, Option.some.injEq] at ha
      exact ⟨0, clock_zero hf hx, by rw [← ha, pageAt_zero]⟩
    · rintro ⟨i, hi, rfl⟩
      obtain rfl := hi.unique (clock_zero hf hi.mem_ids)
      rw [askedAt_zero hi.mem_ids, pageAt_zero]
    · obtain rfl := hi.unique (clock_zero hf hi.mem_ids)
      rw [earlier_run_zero, pageAt, stage_one hd (one_le_cycle x), Nat.zero_mod]
  | succ n ih => exact ih.succ hg hf

/-- The run goes on as long as one of the trees has requests left. -/
theorem live_iff (hg : g.Fixed) (hf : g.forest.Sound) :
    g.Live (g.run n) ↔ ∃ r ∈ g.forest.ids, g.forest.parent? r = none ∧ n + 1 < g.span r := by
  have h := timed hg hf (n + 1)
  constructor
  · rintro ⟨l, hl⟩
    obtain ⟨i, hi, -⟩ := (h.asked l _).1 (asked_leaf hl)
    exact hi.exists_root
  · rintro ⟨r, hr, hroot, hlt⟩
    obtain ⟨l, hl, -⟩ := exists_leaf_of_asked ((h.asked r _).2 ⟨_, .root hr hroot hlt, rfl⟩)
    exact ⟨l, hl⟩

/-- A run over fixed numbers of pages comes to an end. -/
theorem exists_not_live_of_fixed (hg : g.Fixed) (hf : g.forest.Sound) :
    ∃ n, ¬ g.Live (g.run n) := by
  refine ⟨longest (g.forest.ids.map g.span), fun hlive => ?_⟩
  obtain ⟨r, hr, -, hlt⟩ := (live_iff hg hf).1 hlive
  have hlong : longest (g.forest.ids.map g.span) < longest (g.forest.ids.map g.span) :=
    (lt_longest_iff (one_le_longest _)).2 ⟨_, List.mem_map_of_mem hr, by omega⟩
  exact absurd hlong (Nat.lt_irrefl _)

end ForestPager.Paging
