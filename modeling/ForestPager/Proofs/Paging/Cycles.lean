import ForestPager.Proofs.Forest.Preorder
import ForestPager.Proofs.Paging.Standing
import Mathlib.Tactic.Ring

/-!
# Fixed numbers of pages: cycles

When the numbers of pages do not depend on anything, what is below an id takes a fixed
number of requests, a *cycle*, and starts over with each turn of the id. While the cycle
lasts the id is repeated with the cursor of two answers back, so its page goes on by one
with every other request; with a cycle of `m` requests it has gone on by `(m + 1) / 2`
pages at the end, modulo their number. The turns are over when there is no page to go on
with at the end of a cycle for the first time, that is after
`N / gcd N ((m + 1) / 2)` cycles for `N` pages.

Results:

* `stage_add_two`, `stage_succ_of_dvd`: how an id goes on within a cycle and at its end.
* `stage_mod_ne_zero_iff`: when its turns are over.
* `Paging.span_eq`: the number of requests that a tree takes.
-/

namespace ForestPager

/-! ## Pages during a cycle -/

/-- How often an id has gone on by a page before request number `i` of its tree, when what
is below it has cycles of `m` requests. -/
def stage (m i : ℕ) : ℕ := (i / m) * ((m + 1) / 2) + (i % m) / 2

/-- The number of cycles until an id with `n` pages has no page to go on with at the end. -/
def turns (n m : ℕ) : ℕ := n / Nat.gcd n ((m + 1) / 2)

variable {m n i j k : ℕ}

@[simp] theorem stage_zero (m : ℕ) : stage m 0 = 0 := by simp [stage]

theorem stage_one (hm : ¬ m ∣ 1) (hpos : 1 ≤ m) : stage m 1 = 0 := by
  have h2 : 1 < m := by
    rcases Nat.lt_or_eq_of_le hpos with h | rfl
    · exact h
    · exact absurd (Nat.dvd_refl 1) hm
  rw [stage, Nat.div_eq_of_lt h2, Nat.mod_eq_of_lt h2]
  omega

theorem stage_mul_add (hk : k < m) : stage m (m * j + k) = j * ((m + 1) / 2) + k / 2 := by
  rw [stage, Nat.mul_add_div (by omega), Nat.div_eq_of_lt hk, Nat.mul_add_mod, Nat.mod_eq_of_lt hk,
    Nat.add_zero]

theorem exists_mul_add (hm : 1 ≤ m) (i : ℕ) : ∃ j k, i = m * j + k ∧ k < m :=
  ⟨i / m, i % m, (Nat.div_add_mod i m).symm, Nat.mod_lt i hm⟩

theorem dvd_mul_add_iff (hk : k ≤ m) (hm : 1 ≤ m) : m ∣ m * j + k ↔ k = 0 ∨ k = m := by
  rw [Nat.dvd_add_right (Nat.dvd_mul_right m j)]
  constructor
  · rintro ⟨c, rfl⟩
    rcases c with _ | _ | c
    · exact .inl rfl
    · exact .inr (Nat.mul_one m)
    · have : m * (c + 1 + 1) = m * c + m + m := by ring
      have := Nat.zero_le (m * c)
      omega
  · rintro (rfl | rfl)
    · exact Nat.dvd_zero m
    · exact Nat.dvd_refl k

/-- The last request of a cycle. -/
theorem mod_add_one_of_dvd (hm : 1 ≤ m) (h : m ∣ i + 1) : i % m + 1 = m := by
  obtain ⟨j, k, rfl, hk⟩ := exists_mul_add hm i
  rw [Nat.add_assoc, dvd_mul_add_iff (by omega) hm] at h
  rw [Nat.mul_add_mod, Nat.mod_eq_of_lt hk]
  omega

/-- A request of a cycle that has a next one. -/
theorem mod_add_one_of_not_dvd (hm : 1 ≤ m) (h : ¬ m ∣ i + 1) :
    (i + 1) % m = i % m + 1 ∧ i % m + 1 < m := by
  obtain ⟨j, k, rfl, hk⟩ := exists_mul_add hm i
  rw [Nat.add_assoc, dvd_mul_add_iff (by omega) hm] at h
  rw [Nat.add_assoc, Nat.mul_add_mod, Nat.mul_add_mod, Nat.mod_eq_of_lt hk]
  have hlt : k + 1 < m := by omega
  exact ⟨Nat.mod_eq_of_lt hlt, hlt⟩

/-- At the end of a cycle an id goes on from the page that it shows. -/
theorem stage_succ_of_dvd (hm : 1 ≤ m) (h : m ∣ i + 1) : stage m (i + 1) = stage m i + 1 := by
  obtain ⟨j, k, rfl, hk⟩ := exists_mul_add hm i
  rw [Nat.add_assoc, dvd_mul_add_iff (by omega) hm] at h
  obtain rfl : m = k + 1 := by omega
  have hnext : (k + 1) * j + k + 1 = (k + 1) * (j + 1) + 0 := by ring
  rw [hnext, stage_mul_add (by omega), stage_mul_add (by omega), Nat.add_mul]
  omega

/-- Within a cycle an id goes on from the page that it showed one request before. -/
theorem stage_add_two (hm : 1 ≤ m) (h : ¬ m ∣ i + 2) : stage m (i + 2) = stage m i + 1 := by
  obtain ⟨j, k, rfl, hk⟩ := exists_mul_add hm i
  by_cases hlast : k + 1 = m
  · subst hlast
    have hnext : (k + 1) * j + k + 2 = (k + 1) * (j + 1) + 1 := by ring
    have h1 : 1 < k + 1 := by
      by_contra hle
      obtain rfl : k = 0 := by omega
      exact h (one_dvd _)
    rw [hnext, stage_mul_add h1, stage_mul_add hk, Nat.add_mul]
    omega
  · have hne : k + 2 ≠ m := by
      rintro rfl
      refine h ?_
      rw [Nat.add_assoc]
      exact (Nat.dvd_add_right (Nat.dvd_mul_right _ _)).2 (Nat.dvd_refl _)
    rw [Nat.add_assoc, stage_mul_add (by omega), stage_mul_add hk]
    omega

theorem one_le_turns (hn : 1 ≤ n) : 1 ≤ turns n m :=
  Nat.div_pos (Nat.gcd_le_left _ hn) (Nat.gcd_pos_of_pos_left _ hn)

/-- After a number of cycles there is no page to go on with exactly if it is a multiple of
the number of turns. -/
theorem stage_mod_eq_zero_iff (hn : 1 ≤ n) (hm : 1 ≤ m) :
    stage m (m * j) % n = 0 ↔ turns n m ∣ j := by
  have hstage : stage m (m * j) = j * ((m + 1) / 2) := stage_mul_add (k := 0) hm
  rw [hstage, ← Nat.dvd_iff_mod_eq_zero, ← Nat.dvd_mul_gcd_iff_dvd_mul, turns,
    Nat.div_dvd_iff_dvd_mul (Nat.gcd_dvd_left _ _) (Nat.gcd_pos_of_pos_left _ hn), Nat.mul_comm]

/-- At the end of a cycle there is a page to go on with exactly if the turns are not over. -/
theorem stage_mod_ne_zero_iff (hn : 1 ≤ n) (hm : 1 ≤ m) (hi : i < m * turns n m)
    (h : m ∣ i + 1) : stage m (i + 1) % n ≠ 0 ↔ i + 1 < m * turns n m := by
  obtain ⟨j, hj⟩ := h
  rw [hj, ne_eq, stage_mod_eq_zero_iff hn hm, ← hj]
  have hle : j ≤ turns n m := by
    by_contra hlt
    have := Nat.mul_le_mul_left m (Nat.succ_le_of_lt (Nat.not_le.1 hlt))
    rw [Nat.mul_succ] at this
    omega
  have hpos : 1 ≤ j := by
    rw [Nat.one_le_iff_ne_zero]
    rintro rfl
    omega
  constructor
  · intro hnd
    have hne : j ≠ turns n m := fun h => hnd (h ▸ Nat.dvd_refl _)
    rw [hj]
    exact Nat.mul_lt_mul_of_pos_left (by omega) hm
  · intro hlt hd
    have := Nat.le_of_dvd hpos hd
    rw [hj] at hlt
    exact absurd (Nat.mul_le_mul_left m this) (by omega)

namespace Paging

/-! ## The length of a run -/

section Span

variable (g : Paging)

/-- The numbers of pages do not depend on the pages above. -/
def Fixed : Prop := ∀ x above, g.count x above = g.count x []

/-- The number of pages of an id that are gone through; only one when it is excluded. -/
def reach (x : QueryId) : ℕ := if g.excluded.contains x then 1 else max 1 (g.count x [])

/-- The longest of some spans, and at least one. -/
def longest (spans : List ℕ) : ℕ := spans.foldr max 1

/-- The number of requests that the tree under an id takes. -/
def span : QueryId → ℕ :=
  g.forest.fold fun x below =>
    longest (below.map Prod.snd) * turns (g.reach x) (longest (below.map Prod.snd))

/-- The number of requests that what is below an id takes, and at least one. -/
def cycle (x : QueryId) : ℕ := longest ((g.forest.children x).map g.span)

end Span

variable {g : Paging} {x : QueryId}

theorem lt_longest_iff {spans : List ℕ} {a : ℕ} (ha : 1 ≤ a) :
    a < longest spans ↔ ∃ b ∈ spans, a < b := by
  induction spans with
  | nil =>
    simp only [longest, List.foldr_nil, List.not_mem_nil, false_and, exists_false, iff_false]
    omega
  | cons b spans ih =>
    rw [longest, List.foldr_cons, lt_max_iff, ← longest, ih]
    simp

theorem one_le_longest (spans : List ℕ) : 1 ≤ longest spans := by
  induction spans with
  | nil => exact le_rfl
  | cons b spans ih => exact le_trans ih (Nat.le_max_right _ _)

theorem one_le_cycle (x : QueryId) : 1 ≤ g.cycle x := one_le_longest _

theorem one_le_reach (x : QueryId) : 1 ≤ g.reach x := by
  unfold reach
  split
  · exact le_rfl
  · exact Nat.le_max_left _ _

/-- A tree takes a number of cycles. -/
theorem span_eq (hf : g.forest.Sound) (hx : x ∈ g.forest.ids) :
    g.span x = g.cycle x * turns (g.reach x) (g.cycle x) := by
  rw [span, hf.fold_eq _ hx]
  simp only [List.map_map]
  rfl

theorem one_le_span (hf : g.forest.Sound) (hx : x ∈ g.forest.ids) : 1 ≤ g.span x := by
  rw [span_eq hf hx]
  exact Nat.mul_pos (one_le_cycle x) (one_le_turns (one_le_reach x))

theorem span_of_excluded (hf : g.forest.Sound) (hx : x ∈ g.forest.ids)
    (he : g.excluded.contains x = true) : g.span x = g.cycle x := by
  rw [span_eq hf hx, reach, if_pos he, turns, Nat.gcd_one_left, Nat.div_one, Nat.mul_one]

end Paging

end ForestPager
