import ForestPager.Proofs.Paging.Cycles

/-!
# Fixed numbers of pages: which pages have been seen

With fixed numbers of pages a run asks for the pages of an id over and over, but never
for one before all pages in front of it. So the pages asked for so far are told by their
number alone, and a page is new exactly if it is the page of that number.

Results:

* `Paging.le_seen_of_asked`: a page asked for has been seen or is the next one.
* `Paging.seen_eq_reach`: when the run is over, all pages have been seen.
-/

namespace ForestPager.Paging

variable {g : Paging} {x : QueryId} {n p : ℕ}

/-- How many pages of an id the requests before a given one have asked for, going from
the first page on. -/
noncomputable def seen (g : Paging) : ℕ → QueryId → ℕ
  | 0, _ => 0
  | n + 1, x => if g.askedAt n x = some (g.seen n x) then g.seen n x + 1 else g.seen n x

@[simp] theorem seen_zero : g.seen 0 x = 0 := rfl

theorem seen_succ_of_new (h : g.askedAt n x = some (g.seen n x)) :
    g.seen (n + 1) x = g.seen n x + 1 := if_pos h

theorem seen_succ_of_not_new (h : g.askedAt n x ≠ some (g.seen n x)) :
    g.seen (n + 1) x = g.seen n x := if_neg h

theorem seen_le_succ : g.seen n x ≤ g.seen (n + 1) x := by
  by_cases h : g.askedAt n x = some (g.seen n x)
  · rw [seen_succ_of_new h]
    omega
  · rw [seen_succ_of_not_new h]

/-- A page asked for has been seen after that. -/
theorem lt_seen_succ (h : g.askedAt n x = some p) (hp : p ≤ g.seen n x) : p < g.seen (n + 1) x := by
  by_cases hnew : p = g.seen n x
  · rw [seen_succ_of_new (hnew ▸ h)]
    omega
  · have := seen_le_succ (g := g) (n := n) (x := x)
    omega

theorem lt_reach_of_asked (hg : g.Fixed) (hf : g.forest.Sound) (h : g.askedAt n x = some p) :
    p < g.reach x := by
  have hpos := one_le_reach (g := g) x
  cases he : g.excluded.contains x with
  | true =>
    cases n with
    | zero =>
      rw [askedAt_zero (mem_ids_of_asked hf h), Option.some.injEq] at h
      omega
    | succ n =>
      rw [askedAt_succ] at h
      have := asked_excluded he h
      omega
  | false =>
    rcases genuine_askedAt n x p h with rfl | ⟨above, hlt⟩
    · exact hpos
    · rw [hg] at hlt
      simp only [reach, he, Bool.false_eq_true, if_false]
      omega

theorem seen_le_reach (hg : g.Fixed) (hf : g.forest.Sound) : g.seen n x ≤ g.reach x := by
  induction n with
  | zero => exact Nat.zero_le _
  | succ n ih =>
    by_cases h : g.askedAt n x = some (g.seen n x)
    · rw [seen_succ_of_new h]
      exact lt_reach_of_asked hg hf h
    · rw [seen_succ_of_not_new h]
      exact ih

/-- The pages that the last two answers have offered come after pages seen, and an id
without one has no page that was not seen. -/
structure InOrder (g : Paging) (n : ℕ) (x : QueryId) : Prop where
  cursors : (g.run n).cursors x ≤ g.seen (n + 1) x
  earlier : (g.run n).earlier x ≤ g.seen (n + 1) x
  all : g.excluded.contains x = true ∨ (g.run n).cursors x = 0 → g.reach x ≤ g.seen (n + 1) x

theorem cursors_le_seen (h : g.askedAt n x = some p) (hp : p ≤ g.seen n x) :
    (g.run n).cursors x ≤ g.seen (n + 1) x := by
  have hlt := lt_seen_succ h hp
  rw [cursors_run, offered_of_some h]
  split <;> omega

theorem reach_le_seen (hg : g.Fixed) (h : g.askedAt n x = some p) (hp : p ≤ g.seen n x)
    (he : g.excluded.contains x = true ∨ (g.run n).cursors x = 0) :
    g.reach x ≤ g.seen (n + 1) x := by
  have hlt := lt_seen_succ h hp
  cases hx : g.excluded.contains x with
  | true =>
    rw [reach, if_pos hx]
    omega
  | false =>
    simp only [hx, Bool.false_eq_true, false_or] at he
    rw [cursors_run, offered_of_some h, hg] at he
    simp only [reach, hx, Bool.false_eq_true, if_false]
    split at he <;> omega

theorem InOrder.le_seen (h : g.InOrder n x) (ha : g.askedAt (n + 1) x = some p) :
    p ≤ g.seen (n + 1) x := by
  rcases asked_cases ha with rfl | rfl | rfl
  · exact Nat.zero_le _
  · exact h.cursors
  · exact h.earlier

/-- What is not asked for has no page to go on with. -/
theorem cursors_eq_zero_of_not_asked (hf : g.forest.Sound) (hx : x ∈ g.forest.ids)
    (he : g.excluded.contains x = false) (h : g.askedAt (n + 1) x = none) :
    (g.run n).cursors x = 0 := by
  by_contra hc
  obtain ⟨l, hl, rfl | hxl⟩ := exists_leaf hf hx he hc
  · rw [askedAt_succ, asked_leaf hl] at h
    cases h
  · rw [askedAt_succ, asked_above hf hl hxl] at h
    cases h

/-- The pages of an id come in order. -/
theorem inOrder (hg : g.Fixed) (hf : g.forest.Sound) (hx : x ∈ g.forest.ids) (n : ℕ) :
    g.InOrder n x := by
  induction n with
  | zero =>
    have ha := askedAt_zero (g := g) hx
    exact ⟨cursors_le_seen ha (Nat.zero_le _), Nat.zero_le _, reach_le_seen hg ha (Nat.zero_le _)⟩
  | succ n ih =>
    have hmono := seen_le_succ (g := g) (n := n + 1) (x := x)
    have hearlier : (g.run (n + 1)).earlier x ≤ g.seen (n + 2) x := ih.cursors.trans hmono
    cases ha : g.askedAt (n + 1) x with
    | some p =>
      have hp := ih.le_seen ha
      exact ⟨cursors_le_seen ha hp, hearlier, reach_le_seen hg ha hp⟩
    | none =>
      refine ⟨?_, hearlier, fun _ => (ih.all ?_).trans hmono⟩
      · rw [cursors_run, offered_of_none ha]
        exact Nat.zero_le _
      · cases he : g.excluded.contains x with
        | true => exact .inl rfl
        | false => exact .inr (cursors_eq_zero_of_not_asked hf hx he ha)

/-- A page asked for has been seen or is the next one. -/
theorem le_seen_of_asked (hg : g.Fixed) (hf : g.forest.Sound) (h : g.askedAt n x = some p) :
    p ≤ g.seen n x := by
  have hx := mem_ids_of_asked hf h
  cases n with
  | zero =>
    rw [askedAt_zero hx, Option.some.injEq] at h
    exact h ▸ Nat.zero_le _
  | succ n => exact (inOrder hg hf hx n).le_seen h

/-- When the run is over, all pages have been seen. -/
theorem seen_eq_reach (hg : g.Fixed) (hf : g.forest.Sound) (hx : x ∈ g.forest.ids)
    (hn : ¬ g.Asks n) : g.seen n x = g.reach x := by
  cases n with
  | zero => exact absurd trivial hn
  | succ n =>
    refine Nat.le_antisymm (seen_le_reach hg hf) ((inOrder hg hf hx n).all ?_)
    cases he : g.excluded.contains x with
    | true => exact .inl rfl
    | false => exact .inr ((not_live_iff hf).1 hn x hx he)

end ForestPager.Paging
