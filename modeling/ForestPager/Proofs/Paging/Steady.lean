import ForestPager.Proofs.Paging.Standing
import Mathlib.Data.ENat.Basic

/-!
# Steady paging

Repeating what is above a leaf can make it drift from the page to which the leaf
belongs. There are bounds on the numbers of pages under which this does no harm: on
each path at most two sub-queries have several pages, and the lower one of them has at
most two. Then, while the upper one stands at a page, all lower ones below it show
their second page in one single request, before anything drifts.

Results:

* `Forest.Steady`: the condition on the bounds.
* `Paging.Progress.succ`: what one request does to the part below an upper sub-query.
* `Paging.exists_not_live`: a steady run comes to an end.
* `Paging.visits_of_valid`: a steady run asks for every choice of pages.
-/

namespace ForestPager

/-! ## Bounds on the numbers of pages -/

/-- Numbers of pages within given bounds. -/
def AtMost (count : PageCount) (b : QueryId → ℕ∞) : Prop := ∀ x above, (count x above : ℕ∞) ≤ b x

namespace Forest

/-- Whether an id is not excluded and may have several pages. -/
def Several (f : Forest) (excluded : IdSet) (b : QueryId → ℕ∞) (x : QueryId) : Prop :=
  x ∈ f.ids ∧ excluded.contains x = false ∧ 2 ≤ b x

/-- On each path at most two ids have several pages, and the lower one has at most two. -/
structure Steady (f : Forest) (excluded : IdSet) (b : QueryId → ℕ∞) : Prop where
  two : ∀ x y, f.Several excluded b x → f.Several excluded b y → x ∈ f.ancestors y → b y ≤ 2
  bottom : ∀ x y z, f.Several excluded b x → f.Several excluded b y → f.Several excluded b z →
    x ∈ f.ancestors y → y ∉ f.ancestors z

/-- An id with several pages and none such above it. -/
def Outer (f : Forest) (excluded : IdSet) (b : QueryId → ℕ∞) (x : QueryId) : Prop :=
  f.Several excluded b x ∧ ∀ y ∈ f.ancestors x, ¬ f.Several excluded b y

section Outer

variable {f : Forest} {excluded : IdSet} {b : QueryId → ℕ∞} {x : QueryId}

/-- On a path there is an outer id, or no id has several pages. -/
theorem Sound.exists_outer_or (hf : f.Sound) (hx : x ∈ f.ids) :
    (∃ p ∈ x :: f.ancestors x, f.Outer excluded b p) ∨
      ∀ y ∈ x :: f.ancestors x, ¬ f.Several excluded b y := by
  induction x, hx using hf.induction_up with
  | root x _ hr =>
    rw [ancestors_of_root hr]
    by_cases hs : f.Several excluded b x
    · exact .inl ⟨x, List.mem_cons_self, hs, by simp [ancestors_of_root hr]⟩
    · exact .inr fun y hy => List.mem_singleton.1 hy ▸ hs
  | child x p hp ih =>
    have hanc := hf.ancestors_of_parent hp
    rw [hanc]
    rcases ih with ⟨q, hq, hqo⟩ | hno
    · exact .inl ⟨q, List.mem_cons_of_mem _ hq, hqo⟩
    · by_cases hs : f.Several excluded b x
      · exact .inl ⟨x, List.mem_cons_self, hs, hanc ▸ hno⟩
      · exact .inr (List.forall_mem_cons.2 ⟨hs, hno⟩)

theorem Sound.exists_outer (hf : f.Sound) (hx : f.Several excluded b x) :
    ∃ p ∈ x :: f.ancestors x, f.Outer excluded b p := by
  rcases hf.exists_outer_or hx.1 with h | hno
  · exact h
  · exact absurd hx (hno x List.mem_cons_self)

end Outer

end Forest

namespace Paging

variable {g : Paging} {b : QueryId → ℕ∞} {n p : ℕ} {x y P Q : QueryId}

/-- Whether an id is not excluded and may have several pages. -/
abbrev Several (g : Paging) (b : QueryId → ℕ∞) (x : QueryId) : Prop :=
  g.forest.Several g.excluded b x

/-- An id with several pages and none such above it. -/
abbrev Outer (g : Paging) (b : QueryId → ℕ∞) (x : QueryId) : Prop :=
  g.forest.Outer g.excluded b x

/-- The number of pages of an id when all above it stand at their first page. -/
def topCount (g : Paging) (x : QueryId) : ℕ := g.count x ((g.forest.ancestors x).map fun _ => 0)

section Several

variable (hf : g.forest.Sound) (hb : AtMost g.count b)
include hf hb

/-- Only an id with several pages is ever offered one to go on with. -/
theorem several_of_cursors (he : g.excluded.contains x = false) (hc : (g.run n).cursors x ≠ 0) :
    g.Several b x := by
  rw [cursors_run] at hc
  obtain ⟨p, hp, -, hlt⟩ := eq_of_offered_ne_zero hc
  refine ⟨mem_ids_of_asked hf hp, he, ?_⟩
  have h2 : 2 ≤ g.count x ((g.forest.ancestors x).map fun y => (g.askedAt n y).getD 0) := by omega
  exact le_trans (by exact_mod_cast h2) (hb x _)

/-- Only an id with several pages is ever asked for another page than the first. -/
theorem several_of_asked (h : g.askedAt n x = some p) (hp : p ≠ 0) : g.Several b x := by
  have hx := mem_ids_of_asked hf h
  cases n with
  | zero =>
    rw [askedAt_zero hx] at h
    exact absurd (Option.some.inj h).symm hp
  | succ n =>
    have he : g.excluded.contains x = false := by
      by_contra he
      exact hp (asked_excluded (Bool.not_eq_false _ ▸ he) h)
    rcases asked_cases h with rfl | rfl | rfl
    · exact absurd rfl hp
    · exact several_of_cursors hf hb he hp
    · cases n with
      | zero => exact absurd rfl hp
      | succ n => exact several_of_cursors hf hb he hp

theorem getD_asked_of_not_several (h : ¬ g.Several b x) (n : ℕ) : (g.askedAt n x).getD 0 = 0 := by
  cases ha : g.askedAt n x with
  | none => rfl
  | some p =>
    by_contra hp
    exact h (several_of_asked hf hb ha hp)

/-- What an outer id is offered depends on its own page only. -/
theorem cursors_outer (hP : g.Outer b P) (ha : g.askedAt n P = some p) :
    (g.run n).cursors P = if p + 1 < g.topCount P then p + 1 else 0 := by
  rw [cursors_run, offered_of_some ha, topCount]
  rw [List.map_congr_left fun y hy => getD_asked_of_not_several hf hb (hP.2 y hy) n]

theorem Leaf.several (h : g.Leaf (g.run n) x) : g.Several b x :=
  several_of_cursors hf hb h.2.1 h.2.2.1

/-- A leaf that touches something below an outer id which is no leaf is below it, too. -/
theorem inner_of_leaf (hP : g.Outer b P) (hQ : Q = P ∨ P ∈ g.forest.ancestors Q)
    (hl : g.Leaf (g.run n) x) (hPl : ¬ g.Leaf (g.run n) P)
    (hx : x = Q ∨ x ∈ g.forest.ancestors Q ∨ Q ∈ g.forest.ancestors x) :
    P ∈ g.forest.ancestors x := by
  have hxP : x ≠ P := fun h => hPl (h ▸ hl)
  have hxP' : x ∉ g.forest.ancestors P := fun h => hP.2 x h (hl.several hf hb)
  rcases hQ with rfl | hQ
  · rcases hx with rfl | hx | hx
    · exact absurd rfl hxP
    · exact absurd hx hxP'
    · exact hx
  · rcases hx with rfl | hx | hx
    · exact hQ
    · rcases hf.ancestors_linear hx hQ with h | h | h
      · exact absurd h hxP
      · exact absurd h hxP'
      · exact h
    · exact hf.ancestors_trans hQ hx

/-- When nothing below has a page to go on with, the outer id is a leaf if it has one. -/
theorem leaf_of_outer (hP : g.Outer b P)
    (hno : ∀ Q, P ∈ g.forest.ancestors Q → g.Several b Q → (g.run n).cursors Q = 0)
    (hc : (g.run n).cursors P ≠ 0) : g.Leaf (g.run n) P := by
  refine ⟨hP.1.1, hP.1.2.1, hc, fun y hy hye => ?_⟩
  by_contra hyc
  exact hyc (hno y hy (several_of_cursors hf hb hye hyc))

/-- When neither an outer id nor anything below it has a page to go on with, they are not
asked for any more. -/
theorem asked_eq_none_of_done (hP : g.Outer b P)
    (hno : ∀ Q, P ∈ g.forest.ancestors Q → g.Several b Q → (g.run n).cursors Q = 0)
    (hc : (g.run n).cursors P = 0) (hQ : Q = P ∨ P ∈ g.forest.ancestors Q) :
    g.askedAt (n + 1) Q = none := by
  rw [Option.eq_none_iff_forall_ne_some]
  intro p hp
  obtain ⟨l, hl, hlQ⟩ := exists_leaf_of_asked hp
  have hPl : ¬ g.Leaf (g.run n) P := fun h => h.2.2.1 hc
  exact hl.2.2.1 (hno l (inner_of_leaf hf hb hP hQ hl hPl hlQ) (hl.several hf hb))

end Several

/-! ## Progress -/

/-- The number of pages of an id when one above it stands at a given page and the others
at their first. -/
def belowCount (g : Paging) (P Q : QueryId) (p : ℕ) : ℕ :=
  g.count Q ((g.forest.ancestors Q).map fun y => if y = P then p else 0)

/-- Some request shows the second page of an id together with a given page of one above
it, and the first page of what is below. -/
def Shows (g : Paging) (P Q : QueryId) (p : ℕ) : Prop :=
  ∃ m, g.askedAt m P = some p ∧ g.askedAt m Q = some 1 ∧
    ∀ y, Q ∈ g.forest.ancestors y → g.askedAt m y = some 0

/-- After request number `n` an outer id stands at page `p`, and what has been asked for below it
is what it takes to see everything up to there; `K` bounds the number of requests that are still
to come. Either nothing below is left to be shown, or the next request repeats page `p`. Every
page was shown together with the first pages below it, and the second pages below were shown or
are about to be. -/
structure Progress (g : Paging) (b : QueryId → ℕ∞) (K : ℕ) (P : QueryId) (n p : ℕ) : Prop where
  exists_page : p = 0 ∨ p < g.topCount P
  cursor : (g.run n).cursors P = if p + 1 < g.topCount P then p + 1 else 0
  below : ((∀ Q, P ∈ g.forest.ancestors Q → g.Several b Q → (g.run n).cursors Q = 0) ∧
      2 * (g.topCount P - 1 - p) ≤ K - n) ∨
    ((g.run n).earlier P = p ∧ 2 * (g.topCount P - 1 - p) + 1 ≤ K - n)
  first : ∀ p' ≤ p, ∃ m, g.askedAt m P = some p' ∧
    ∀ y, P ∈ g.forest.ancestors y → g.askedAt m y = some 0
  second : ∀ Q, P ∈ g.forest.ancestors Q → g.Several b Q → ∀ p' ≤ p, 1 < g.belowCount P Q p' →
    (p' = p ∧ (g.run n).cursors Q ≠ 0) ∨ g.Shows P Q p'

section Steady

variable (hf : g.forest.Sound) (hb : AtMost g.count b) (hs : g.forest.Steady g.excluded b)
include hf hb hs

/-- Below an id with several pages, what has a page to go on with is a leaf. -/
theorem leaf_of_inner (hP : g.Several b P) (hQ : P ∈ g.forest.ancestors Q)
    (he : g.excluded.contains Q = false) (hc : (g.run n).cursors Q ≠ 0) : g.Leaf (g.run n) Q := by
  have hQs := several_of_cursors hf hb he hc
  refine ⟨hQs.1, he, hc, fun y hy hye => ?_⟩
  by_contra hyc
  exact hs.bottom P Q y hP hQs (several_of_cursors hf hb hye hyc) hQ hy

omit hf in
/-- Below an id with several pages, only a second page is ever offered. -/
theorem cursors_inner_le (hP : g.Several b P) (hQ : P ∈ g.forest.ancestors Q)
    (hQs : g.Several b Q) : (g.run n).cursors Q ≤ 1 := by
  rw [cursors_run]
  by_cases hc : offered g.forest g.count (g.askedAt n) Q = 0
  · omega
  · obtain ⟨p, -, hp, hlt⟩ := eq_of_offered_ne_zero hc
    have hle : (g.count Q ((g.forest.ancestors Q).map fun y => (g.askedAt n y).getD 0) : ℕ∞) ≤ 2 :=
      (hb Q _).trans (hs.two P Q hP hQs hQ)
    have hle' : g.count Q ((g.forest.ancestors Q).map fun y => (g.askedAt n y).getD 0) ≤ 2 := by
      exact_mod_cast hle
    omega

/-- While something below has a page to go on with, the outer id is repeated, and the
request shows the second page of everything below that has one. -/
theorem cursors_succ_of_pending (hP : g.Outer b P) (hQ : P ∈ g.forest.ancestors Q)
    (hc : (g.run n).cursors Q ≠ 0) (hQs : g.Several b Q) (hy : P ∈ g.forest.ancestors y)
    (hys : g.Several b y) : (g.run (n + 1)).cursors y = 0 := by
  have hlQ := leaf_of_inner hf hb hs hP.1 hQ hQs.2.1 hc
  rw [cursors_run]
  by_contra hne
  obtain ⟨p, hp, heq, -⟩ := eq_of_offered_ne_zero hne
  have hle := cursors_inner_le (n := n + 1) hb hs hP.1 hy hys
  rw [cursors_run] at hle
  obtain rfl : p = 0 := by omega
  obtain ⟨l, hl, hly⟩ := exists_leaf_of_asked hp
  have hPl : ¬ g.Leaf (g.run n) P := fun h => h.not_above hlQ hQ
  have hPlx := inner_of_leaf hf hb hP (.inr hy) hl hPl hly
  rcases hly with rfl | hly | hly
  · rw [askedAt_succ, asked_leaf hl] at hp
    exact hl.2.2.1 (Option.some.inj hp)
  · exact hs.bottom P l y hP.1 (hl.several hf hb) hys hPlx hly
  · exact hs.bottom P y l hP.1 hys (hl.several hf hb) hy hly

omit hb in
/-- On the path of an inner id only that id and the outer one have several pages. -/
theorem not_several_of_inner (hP : g.Outer b P) (hQ : P ∈ g.forest.ancestors Q)
    (hQs : g.Several b Q) (hy : (y ∈ g.forest.ancestors Q ∧ y ≠ P) ∨ Q ∈ g.forest.ancestors y) :
    ¬ g.Several b y := by
  intro hys
  rcases hy with ⟨hy, hne⟩ | hy
  · rcases hf.ancestors_linear hy hQ with hyP | hyP | hPy
    · exact hne hyP
    · exact hP.2 y hyP hys
    · exact hs.bottom P y Q hP.1 hys hQs hPy hy
  · exact hs.bottom P Q y hP.1 hQs hys hQ hy

/-- Above an inner id only the outer one can be asked for another page than the first. -/
theorem map_asked_eq (hP : g.Outer b P) (hQ : P ∈ g.forest.ancestors Q) (hQs : g.Several b Q)
    (ha : g.askedAt n P = some p) :
    ((g.forest.ancestors Q).map fun y => (g.askedAt n y).getD 0) =
      (g.forest.ancestors Q).map fun y => if y = P then p else 0 := by
  refine List.map_congr_left fun y hy => ?_
  split
  · next h => rw [h, ha]; rfl
  · next h =>
    exact getD_asked_of_not_several hf hb
      (not_several_of_inner hf hs hP hQ hQs (.inl ⟨hy, h⟩)) n

/-! ### Progress below an outer id -/

variable {K : ℕ}

omit hs in
theorem progress_zero (hP : g.Outer b P) (hK : 2 * g.topCount P < K) : g.Progress b K P 0 0 := by
  have hP0 : g.askedAt 0 P = some 0 := askedAt_zero hP.1.1
  refine ⟨.inl rfl, cursors_outer hf hb hP hP0, .inr ⟨rfl, by omega⟩, ?_, ?_⟩
  · rintro p' hp'
    obtain rfl : p' = 0 := by omega
    exact ⟨0, hP0, fun y hy => askedAt_zero (hf.mem_ids_of_mem_ancestors hy).2⟩
  · rintro Q hQ hQs p' hp' hlt
    obtain rfl : p' = 0 := by omega
    refine .inl ⟨rfl, ?_⟩
    rw [cursors_run, offered_of_some (askedAt_zero hQs.1), if_pos]
    · omega
    · have hmap : ((g.forest.ancestors Q).map fun y => (g.askedAt 0 y).getD 0) =
          (g.forest.ancestors Q).map fun y => if y = P then 0 else 0 := by
        refine List.map_congr_left fun y hy => ?_
        rw [askedAt_zero (hf.mem_ids_of_mem_ancestors hy).1]
        simp
      rw [hmap]
      exact hlt

/-- When something below has a second page to show, the next request repeats the outer id
and shows it. -/
theorem Progress.of_pending (hP : g.Outer b P) (h : g.Progress b K P n p)
    (hQ : P ∈ g.forest.ancestors Q) (hQs : g.Several b Q) (hQc : (g.run n).cursors Q ≠ 0) :
    g.Progress b K P (n + 1) p := by
  have hlQ := leaf_of_inner hf hb hs hP.1 hQ hQs.2.1 hQc
  have hrest : (g.run n).earlier P = p ∧ 2 * (g.topCount P - 1 - p) + 1 ≤ K - n := by
    rcases h.below with ⟨hno, -⟩ | h
    · exact absurd (hno Q hQ hQs) hQc
    · exact h
  have hask : g.askedAt (n + 1) P = some p := by
    rw [askedAt_succ, asked_above hf hlQ hQ, hP.1.2.1, hrest.1]
    rfl
  refine ⟨h.exists_page, cursors_outer hf hb hP hask, .inl ⟨fun y hy hys => ?_, by omega⟩,
    h.first, fun y hy hys p' hp' hlt => .inr ?_⟩
  · exact cursors_succ_of_pending hf hb hs hP hQ hQc hQs hy hys
  · rcases h.second y hy hys p' hp' hlt with ⟨rfl, hyc⟩ | hseen
    · have hly := leaf_of_inner hf hb hs hP.1 hy hys.2.1 hyc
      have hle := cursors_inner_le (n := n) hb hs hP.1 hy hys
      refine ⟨n + 1, hask, ?_, fun z hz => asked_below hly hz⟩
      rw [askedAt_succ, asked_leaf hly]
      exact congrArg some (by omega)
    · exact hseen

omit hf hb hs in
/-- When nothing below has a second page to show, all that there are were shown. -/
theorem Progress.shows (h : g.Progress b K P n p)
    (hno : ∀ Q, P ∈ g.forest.ancestors Q → g.Several b Q → (g.run n).cursors Q = 0)
    (hQ : P ∈ g.forest.ancestors Q) (hQs : g.Several b Q) {p' : ℕ} (hp' : p' ≤ p)
    (hlt : 1 < g.belowCount P Q p') : g.Shows P Q p' := by
  rcases h.second Q hQ hQs p' hp' hlt with ⟨-, hQc⟩ | hseen
  · exact absurd (hno Q hQ hQs) hQc
  · exact hseen

/-- When nothing below has a second page to show, the outer id goes on to its next page. -/
theorem Progress.of_next (hP : g.Outer b P) (h : g.Progress b K P n p)
    (hno : ∀ Q, P ∈ g.forest.ancestors Q → g.Several b Q → (g.run n).cursors Q = 0)
    (hlast : p + 1 < g.topCount P) : g.Progress b K P (n + 1) (p + 1) := by
  have hcur : (g.run n).cursors P = p + 1 := by rw [h.cursor, if_pos hlast]
  have hlP := leaf_of_outer hf hb hP hno (by omega)
  have hask : g.askedAt (n + 1) P = some (p + 1) := by
    rw [askedAt_succ, asked_leaf hlP, hcur]
  refine ⟨.inr hlast, cursors_outer hf hb hP hask, .inr ⟨hcur, ?_⟩, fun p' hp' => ?_,
    fun Q hQ hQs p' hp' hlt => ?_⟩
  · rcases h.below with ⟨-, hK⟩ | ⟨-, hK⟩ <;> omega
  · rcases Nat.lt_or_eq_of_le hp' with hlt | rfl
    · exact h.first p' (by omega)
    · exact ⟨n + 1, hask, fun y hy => asked_below hlP hy⟩
  · rcases Nat.lt_or_eq_of_le hp' with hlt' | rfl
    · exact .inr (h.shows hno hQ hQs (by omega) hlt)
    · have hQa : g.askedAt (n + 1) Q = some 0 := asked_below hlP hQ
      refine .inl ⟨rfl, ?_⟩
      rw [cursors_run, offered_of_some hQa, if_pos]
      · omega
      · rw [map_asked_eq hf hb hs hP hQ hQs hask]
        exact hlt

omit hs in
/-- When neither the outer id nor anything below has a page to go on with, nothing happens
any more. -/
theorem Progress.of_done (hP : g.Outer b P) (h : g.Progress b K P n p)
    (hno : ∀ Q, P ∈ g.forest.ancestors Q → g.Several b Q → (g.run n).cursors Q = 0)
    (hlast : ¬ p + 1 < g.topCount P) : g.Progress b K P (n + 1) p := by
  have hcur : (g.run n).cursors P = 0 := by rw [h.cursor, if_neg hlast]
  have hnone : ∀ Q, Q = P ∨ P ∈ g.forest.ancestors Q → (g.run (n + 1)).cursors Q = 0 := by
    intro Q hQ
    rw [cursors_run, offered_of_none (asked_eq_none_of_done hf hb hP hno hcur hQ)]
  refine ⟨h.exists_page, ?_, .inl ⟨fun Q hQ _ => hnone Q (.inr hQ), by omega⟩, h.first,
    fun Q hQ hQs p' hp' hlt => .inr (h.shows hno hQ hQs hp' hlt)⟩
  rw [hnone P (.inl rfl), if_neg hlast]

/-- One request further below an outer id. -/
theorem Progress.succ (hP : g.Outer b P) (h : g.Progress b K P n p) :
    ∃ p', g.Progress b K P (n + 1) p' := by
  by_cases hpend : ∃ Q, P ∈ g.forest.ancestors Q ∧ g.Several b Q ∧ (g.run n).cursors Q ≠ 0
  · obtain ⟨Q, hQ, hQs, hQc⟩ := hpend
    exact ⟨p, h.of_pending hf hb hs hP hQ hQs hQc⟩
  · have hno : ∀ Q, P ∈ g.forest.ancestors Q → g.Several b Q → (g.run n).cursors Q = 0 := by
      intro Q hQ hQs
      by_contra hQc
      exact hpend ⟨Q, hQ, hQs, hQc⟩
    by_cases hlast : p + 1 < g.topCount P
    · exact ⟨p + 1, h.of_next hf hb hs hP hno hlast⟩
    · exact ⟨p, h.of_done hf hb hP hno hlast⟩

theorem exists_progress (hP : g.Outer b P) (hK : 2 * g.topCount P < K) (n : ℕ) :
    ∃ p, g.Progress b K P n p := by
  induction n with
  | zero => exact ⟨0, progress_zero hf hb hP hK⟩
  | succ n ih =>
    obtain ⟨p, h⟩ := ih
    exact h.succ hf hb hs hP

omit hf hb hs in
/-- In the end the last page was reached, and nothing has a page to go on with. -/
theorem Progress.at_end (h : g.Progress b K P n p) (hn : K ≤ n) :
    g.topCount P ≤ p + 1 ∧ (g.run n).cursors P = 0 ∧
      ∀ Q, P ∈ g.forest.ancestors Q → g.Several b Q → (g.run n).cursors Q = 0 := by
  rcases h.below with ⟨hno, hle⟩ | ⟨-, hle⟩
  · have hlast : g.topCount P ≤ p + 1 := by omega
    refine ⟨hlast, ?_, hno⟩
    rw [h.cursor, if_neg (by omega)]
  · omega

/-- A steady run comes to an end. -/
theorem exists_not_live : ∃ n, ¬ g.Live (g.run n) := by
  refine ⟨(g.forest.ids.map fun x => 2 * g.topCount x).max?.getD 0 + 1, ?_⟩
  rw [not_live_iff hf]
  intro x hx he
  by_contra hc
  obtain ⟨P, hPx, hP⟩ := hf.exists_outer (several_of_cursors hf hb he hc)
  have hK : 2 * g.topCount P < (g.forest.ids.map fun x => 2 * g.topCount x).max?.getD 0 + 1 :=
    Nat.lt_succ_of_le (List.le_max?_getD_of_mem (List.mem_map_of_mem hP.1.1))
  obtain ⟨p, h⟩ := exists_progress hf hb hs hP hK _
  obtain ⟨-, hcP, hcQ⟩ := h.at_end le_rfl
  rcases List.mem_cons.1 hPx with rfl | hPx
  · exact hc hcP
  · exact hc (hcQ x hPx (several_of_cursors hf hb he hc))

end Steady

/-! ## Choices of pages -/

/-- A page of an id and of each id above it, such that all of them exist. -/
def Valid (g : Paging) (x : QueryId) (page : QueryId → ℕ) : Prop :=
  ∀ y ∈ x :: g.forest.ancestors x, page y < g.count y ((g.forest.ancestors y).map page)

/-- Some request asks for an id and all ids above it at given pages. -/
def Visits (g : Paging) (x : QueryId) (page : QueryId → ℕ) : Prop :=
  ∃ n, ∀ y ∈ x :: g.forest.ancestors x, g.askedAt n y = some (page y)

section Covering

variable {page : QueryId → ℕ} (hf : g.forest.Sound) (hb : AtMost g.count b)
  (hs : g.forest.Steady g.excluded b) (hX : ∀ x, g.excluded.contains x = false)

include hf hb in
theorem asked_eq_of_not_several (hy : ¬ g.Several b y) (ha : g.askedAt n y = some p) : p = 0 := by
  by_contra hp
  exact hy (several_of_asked hf hb ha hp)

include hf hb hX in
/-- Only an id with several pages can be chosen at another page than the first. -/
theorem several_of_valid (hv : g.Valid x page) (hx : x ∈ g.forest.ids)
    (hy : y ∈ x :: g.forest.ancestors x) (hp : page y ≠ 0) : g.Several b y := by
  refine ⟨?_, hX y, ?_⟩
  · rcases List.mem_cons.1 hy with rfl | hy
    · exact hx
    · exact (hf.mem_ids_of_mem_ancestors hy).1
  · have hlt := hv y hy
    have h2 : 2 ≤ g.count y ((g.forest.ancestors y).map page) := by omega
    exact le_trans (by exact_mod_cast h2) (hb y _)

include hf hb hX in
theorem page_eq_zero (hv : g.Valid x page) (hx : x ∈ g.forest.ids)
    (hy : y ∈ x :: g.forest.ancestors x) (hys : ¬ g.Several b y) : page y = 0 := by
  by_contra hp
  exact hys (several_of_valid hf hb hX hv hx hy hp)

include hf hb hX in
/-- Above an id that is asked for, an id without several pages is asked for as chosen. -/
theorem asked_eq_page (hv : g.Valid x page) (hx : x ∈ g.forest.ids)
    (hy : y ∈ x :: g.forest.ancestors x) (hys : ¬ g.Several b y) {m : ℕ}
    (hQ : g.askedAt m Q = some p) (hyQ : y ∈ g.forest.ancestors Q) :
    g.askedAt m y = some (page y) := by
  obtain ⟨r, hr⟩ := asked_closed hf hQ hyQ
  rw [hr, asked_eq_of_not_several hf hb hys hr, page_eq_zero hf hb hX hv hx hy hys]

include hf hb hX in
/-- The pages of an outer id are those that it has below first pages. -/
theorem Valid.lt_topCount (hv : g.Valid x page) (hx : x ∈ g.forest.ids) (hP : g.Outer b P)
    (hPx : P ∈ x :: g.forest.ancestors x) : page P < g.topCount P := by
  have hcount : g.count P ((g.forest.ancestors P).map page) = g.topCount P := by
    refine congrArg (g.count P) (List.map_congr_left fun z hz => ?_)
    exact page_eq_zero hf hb hX hv hx (hf.mem_path_trans (.inr hz) hPx) (hP.2 z hz)
  exact hcount ▸ hv P hPx

include hf hb hs hX in
/-- Below an outer id only a second page can be chosen. -/
theorem Valid.eq_one (hv : g.Valid x page) (hx : x ∈ g.forest.ids) (hP : g.Outer b P)
    (hQx : Q ∈ x :: g.forest.ancestors x) (hQ : P ∈ g.forest.ancestors Q) (hpQ : page Q ≠ 0) :
    page Q = 1 ∧ 1 < g.belowCount P Q (page P) := by
  have hQs := several_of_valid hf hb hX hv hx hQx hpQ
  have hbelow : g.count Q ((g.forest.ancestors Q).map page) = g.belowCount P Q (page P) := by
    refine congrArg (g.count Q) (List.map_congr_left fun z hz => ?_)
    split
    · next h => rw [h]
    · next h =>
      exact page_eq_zero hf hb hX hv hx (hf.mem_path_trans (.inr hz) hQx)
        (not_several_of_inner hf hs hP hQ hQs (.inl ⟨hz, h⟩))
  have hlt := hv Q hQx
  have hle : g.count Q ((g.forest.ancestors Q).map page) ≤ 2 := by
    have := (hb Q ((g.forest.ancestors Q).map page)).trans (hs.two P Q hP.1 hQs hQ)
    exact_mod_cast this
  omega

include hf hb hX in
/-- A choice of first pages below an outer id is asked for with its page. -/
theorem visits_of_outer (hv : g.Valid x page) (hx : x ∈ g.forest.ids) (hP : g.Outer b P)
    (hPx : P ∈ x :: g.forest.ancestors x) {m : ℕ} (hmP : g.askedAt m P = some (page P))
    (hm : ∀ y, P ∈ g.forest.ancestors y → g.askedAt m y = some 0)
    (hno : ∀ y ∈ x :: g.forest.ancestors x, P ∈ g.forest.ancestors y → page y = 0) :
    g.Visits x page := by
  refine ⟨m, fun z hz => ?_⟩
  rcases hf.path_linear hz hPx with rfl | hzP | hPz
  · exact hmP
  · exact asked_eq_page hf hb hX hv hx hz (hP.2 z hzP) hmP hzP
  · rw [hm z hPz, hno z hz hPz]

include hf hb hs hX in
/-- A choice of a second page below an outer id is asked for when it is shown. -/
theorem visits_of_shows (hv : g.Valid x page) (hx : x ∈ g.forest.ids) (hP : g.Outer b P)
    (hQx : Q ∈ x :: g.forest.ancestors x) (hQ : P ∈ g.forest.ancestors Q) (hQs : g.Several b Q)
    (hone : page Q = 1) (hshow : g.Shows P Q (page P)) : g.Visits x page := by
  obtain ⟨m, hmP, hmQ, hm⟩ := hshow
  refine ⟨m, fun z hz => ?_⟩
  rcases hf.path_linear hz hQx with rfl | hzQ | hQz
  · rw [hmQ, hone]
  · by_cases hzP : z = P
    · rw [hzP, hmP]
    · have hzs := not_several_of_inner hf hs hP hQ hQs (.inl ⟨hzQ, hzP⟩)
      exact asked_eq_page hf hb hX hv hx hz hzs hmQ hzQ
  · have hzs := not_several_of_inner hf hs hP hQ hQs (.inr hQz)
    rw [hm z hQz, page_eq_zero hf hb hX hv hx hz hzs]

include hf hb hs hX in
/-- A steady run asks for every choice of pages. -/
theorem visits_of_valid (hx : x ∈ g.forest.ids) (hv : g.Valid x page) : g.Visits x page := by
  by_cases hzero : ∀ y ∈ x :: g.forest.ancestors x, page y = 0
  · refine ⟨0, fun y hy => ?_⟩
    rw [hzero y hy, askedAt_zero]
    rcases List.mem_cons.1 hy with rfl | hy
    · exact hx
    · exact (hf.mem_ids_of_mem_ancestors hy).1
  · simp only [not_forall] at hzero
    obtain ⟨y, hy, hpy⟩ := hzero
    obtain ⟨P, hPy, hP⟩ := hf.exists_outer (several_of_valid hf hb hX hv hx hy hpy)
    have hPx := hf.mem_path_trans (List.mem_cons.1 hPy) hy
    have hpP := hv.lt_topCount hf hb hX hx hP hPx
    -- at the end of the run all pages of the outer id have been reached
    obtain ⟨p, hprog⟩ := exists_progress hf hb hs hP (Nat.lt_succ_self _) (2 * g.topCount P + 1)
    obtain ⟨hlast, -, hno⟩ := hprog.at_end le_rfl
    by_cases hin : ∃ Q ∈ x :: g.forest.ancestors x, P ∈ g.forest.ancestors Q ∧ page Q ≠ 0
    · obtain ⟨Q, hQx, hQ, hpQ⟩ := hin
      have hQs := several_of_valid hf hb hX hv hx hQx hpQ
      obtain ⟨hone, hlt⟩ := hv.eq_one hf hb hs hX hx hP hQx hQ hpQ
      exact visits_of_shows hf hb hs hX hv hx hP hQx hQ hQs hone
        (hprog.shows hno hQ hQs (by omega) hlt)
    · obtain ⟨m, hmP, hm⟩ := hprog.first (page P) (by omega)
      refine visits_of_outer hf hb hX hv hx hP hPx hmP hm fun z hz hPz => ?_
      by_contra hne
      exact hin ⟨z, hz, hPz, hne⟩

end Covering

end Paging

end ForestPager
