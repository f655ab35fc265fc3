import ForestPager.Proofs.Turns
import Mathlib.Data.Nat.Notation

/-!
# Runs over numbered pages

A service may number the pages of each sub-query and give the number of the next page
as the cursor; how many pages there are may depend on the pages at which the
sub-queries above stand. Against such a service a run is described by numbers alone:
for each id the page that its cursor names, now and one answer earlier. This is the
*standing* of the run. From it follow the leaves, the pages asked for and the next
standing, without requests, replies or maps.

Results:

* `Paging.asked_leaf`, `_below`, `_above`, `_elsewhere`: the pages asked for.
* `Paging.exists_leaf`: what has a page to go on with is a leaf or has one below it.
* `Paging.live_of_live_succ`: a run that has stopped does not start again.
* `Paging.genuine_askedAt`: a run asks only for pages that exist.
-/

namespace ForestPager

/-! ## Numbered pages -/

/-- The cursor that names a page; page zero is what is asked for without a cursor. -/
def pageCursor : ℕ → Option Cursor
  | 0 => none
  | p + 1 => some (.ofText (toString (p + 1)))

/-- Numbers of pages: of each sub-query, given the pages of those above it, the nearest
first. -/
abbrev PageCount := QueryId → List ℕ → ℕ

/-- The page of each sub-query that is asked for. -/
abbrev AskedPages := QueryId → Option ℕ

/-- The page offered next to each sub-query asked for; zero when there is none. -/
def offered (f : Forest) (count : PageCount) (asked : AskedPages) (x : QueryId) : ℕ :=
  match asked x with
  | none => 0
  | some p => if p + 1 < count x ((f.ancestors x).map fun y => (asked y).getD 0) then p + 1 else 0

/-- Each page asked for exists, at least for some pages above it. -/
def Genuine (count : PageCount) (asked : AskedPages) : Prop :=
  ∀ x p, asked x = some p → p = 0 ∨ ∃ above, p < count x above

/-- A request submits the cursors that name given pages. -/
def Request.AsksFor (q : Request) (asked : AskedPages) : Prop :=
  ∀ x, q.submitted? x = (asked x).map pageCursor

/-- A request is made of sub-queries of the shape, each with all that it continues
from. -/
structure Request.Fits (q : Request) (t : Traversal) : Prop where
  subQuery : ∀ x r, q.queries.get? x = some r → t.shape.queries.get? x = some r.subQuery
  closed : ∀ x ∈ q.ids, ∀ y ∈ t.forest.ancestors x, y ∈ q.ids

/-- A request is answered with the next pages, given numbers of pages. -/
def Paginates (t : Traversal) (count : PageCount) (q : Request) (outcome : Outcome) : Prop :=
  ∀ asked, q.Fits t → q.AsksFor asked → Genuine count asked →
    ∃ reply items, outcome = .ok reply ∧ reply.listItems = .ok items ∧
      ∀ x, (reply.nextCursors.get? x).join = pageCursor (offered t.forest count asked x)

theorem pageCursor_eq_none_iff {p : ℕ} : pageCursor p = none ↔ p = 0 := by
  cases p <;> simp [pageCursor]

theorem offered_of_none {f : Forest} {count : PageCount} {asked : AskedPages} {x : QueryId}
    (h : asked x = none) : offered f count asked x = 0 := by
  simp [offered, h]

theorem offered_of_some {f : Forest} {count : PageCount} {asked : AskedPages} {x : QueryId} {p : ℕ}
    (h : asked x = some p) :
    offered f count asked x =
      if p + 1 < count x ((f.ancestors x).map fun y => (asked y).getD 0) then p + 1 else 0 := by
  simp [offered, h]

/-- An offered page follows the page asked for, and exists. -/
theorem eq_of_offered_ne_zero {f : Forest} {count : PageCount} {asked : AskedPages} {x : QueryId}
    (h : offered f count asked x ≠ 0) :
    ∃ p, asked x = some p ∧ offered f count asked x = p + 1 ∧
      p + 1 < count x ((f.ancestors x).map fun y => (asked y).getD 0) := by
  cases ha : asked x with
  | none => exact absurd (offered_of_none ha) h
  | some p =>
    rw [offered_of_some ha] at h ⊢
    split at h
    · next hlt => exact ⟨p, rfl, if_pos hlt, hlt⟩
    · exact absurd rfl h

/-! ## Standings -/

/-- The pages that the cursors of the last two answers name; zero is no cursor. -/
structure Standing where
  cursors : QueryId → ℕ
  earlier : QueryId → ℕ

/-- What decides a run over numbered pages: which sub-query continues from which, the sub-queries
whose cursors are never followed, and the numbers of pages. -/
structure Paging where
  forest : Forest
  excluded : IdSet
  count : PageCount

namespace Paging

variable (g : Paging)

/-- An id has a page to go on with, and nothing below it has. -/
def Leaf (st : Standing) (x : QueryId) : Prop :=
  x ∈ g.forest.ids ∧ g.excluded.contains x = false ∧ st.cursors x ≠ 0 ∧
    ∀ y, x ∈ g.forest.ancestors y → g.excluded.contains y = false → st.cursors y = 0

/-- There is something to go on with. -/
def Live (st : Standing) : Prop := ∃ x, g.Leaf st x

open Classical in
/-- The pages asked for next: the next one of a leaf, the first one of what is below it,
and of what is above it the page that it was offered one answer earlier. -/
noncomputable def asked (st : Standing) : AskedPages := fun x =>
  if g.Leaf st x then some (st.cursors x)
  else if ∃ l, g.Leaf st l ∧ l ∈ g.forest.ancestors x then some 0
  else if ∃ l, g.Leaf st l ∧ x ∈ g.forest.ancestors l then
    some (if g.excluded.contains x then 0 else st.earlier x)
  else none

/-- The pages asked for first: page zero of everything. -/
def firstAsked : AskedPages := fun x => if x ∈ g.forest.ids then some 0 else none

/-- The standing after an answer. -/
def standing (asked : AskedPages) (cursors : QueryId → ℕ) : Standing :=
  ⟨offered g.forest g.count asked, cursors⟩

/-- The standing after the first answer and a number of further ones. -/
noncomputable def run : ℕ → Standing
  | 0 => g.standing g.firstAsked fun _ => 0
  | n + 1 => g.standing (g.asked (run n)) (run n).cursors

/-- The pages asked for by the requests of the run, the first one of which is number
zero. -/
noncomputable def askedAt : ℕ → AskedPages
  | 0 => g.firstAsked
  | n + 1 => g.asked (g.run n)

/-- Whether the run has a request of the given number. -/
def Asks : ℕ → Prop
  | 0 => True
  | n + 1 => g.Live (g.run n)

variable {g} {st : Standing} {x y l : QueryId}

theorem cursors_run (n : ℕ) : (g.run n).cursors = offered g.forest g.count (g.askedAt n) := by
  cases n <;> rfl

@[simp] theorem earlier_run_zero : (g.run 0).earlier = fun _ => 0 := rfl

@[simp] theorem earlier_run_succ (n : ℕ) : (g.run (n + 1)).earlier = (g.run n).cursors := rfl

@[simp] theorem askedAt_succ (n : ℕ) : g.askedAt (n + 1) = g.asked (g.run n) := rfl

theorem askedAt_zero (hx : x ∈ g.forest.ids) : g.askedAt 0 x = some 0 := if_pos hx

/-! ## Leaves and the pages asked for -/

/-- What has a page to go on with is a leaf or has one below it. -/
theorem exists_leaf (hf : g.forest.Sound) (hx : x ∈ g.forest.ids)
    (he : g.excluded.contains x = false) (hc : st.cursors x ≠ 0) :
    ∃ l, g.Leaf st l ∧ (l = x ∨ x ∈ g.forest.ancestors l) := by
  induction x, hx using hf.induction_down with
  | step x hx ih =>
    by_cases hl : ∀ y, x ∈ g.forest.ancestors y → g.excluded.contains y = false → st.cursors y = 0
    · exact ⟨x, ⟨hx, he, hc, hl⟩, .inl rfl⟩
    · simp only [not_forall] at hl
      obtain ⟨y, hy, hye, hyc⟩ := hl
      obtain ⟨l, hl, hly⟩ := ih y hy hye hyc
      refine ⟨l, hl, .inr ?_⟩
      rcases hly with rfl | hly
      · exact hy
      · exact hf.ancestors_trans hy hly

theorem not_live_iff (hf : g.forest.Sound) :
    ¬ g.Live st ↔ ∀ x ∈ g.forest.ids, g.excluded.contains x = false → st.cursors x = 0 := by
  constructor
  · intro h x hx he
    by_contra hc
    obtain ⟨l, hl, -⟩ := exists_leaf hf hx he hc
    exact h ⟨l, hl⟩
  · rintro h ⟨l, hl, he, hc, -⟩
    exact hc (h l hl he)

theorem Leaf.not_above (hx : g.Leaf st x) (hy : g.Leaf st y) : x ∉ g.forest.ancestors y := fun h =>
  hy.2.2.1 (hx.2.2.2 y h hy.2.1)

theorem asked_leaf (hx : g.Leaf st x) : g.asked st x = some (st.cursors x) := if_pos hx

theorem asked_below (hl : g.Leaf st l) (hx : l ∈ g.forest.ancestors x) : g.asked st x = some 0 := by
  rw [asked, if_neg fun h => hl.not_above h hx, if_pos ⟨l, hl, hx⟩]

theorem asked_above (hf : g.forest.Sound) (hl : g.Leaf st l) (hx : x ∈ g.forest.ancestors l) :
    g.asked st x = some (if g.excluded.contains x then 0 else st.earlier x) := by
  rw [asked, if_neg fun h => h.not_above hl hx, if_neg, if_pos ⟨l, hl, hx⟩]
  rintro ⟨m, hm, hmx⟩
  exact hm.not_above hl (hf.ancestors_trans hmx hx)

theorem asked_elsewhere (h : ∀ l, g.Leaf st l → l ≠ x ∧ l ∉ g.forest.ancestors x ∧
    x ∉ g.forest.ancestors l) : g.asked st x = none := by
  rw [asked, if_neg fun hx => (h x hx).1 rfl, if_neg, if_neg]
  · rintro ⟨l, hl, hx⟩
    exact (h l hl).2.2 hx
  · rintro ⟨l, hl, hx⟩
    exact (h l hl).2.1 hx

/-- What is asked for is a leaf, below one or above one. -/
theorem exists_leaf_of_asked {p : ℕ} (h : g.asked st x = some p) :
    ∃ l, g.Leaf st l ∧ (l = x ∨ l ∈ g.forest.ancestors x ∨ x ∈ g.forest.ancestors l) := by
  by_contra hno
  rw [asked_elsewhere] at h
  · cases h
  · intro l hl
    have : ¬ (l = x ∨ l ∈ g.forest.ancestors x ∨ x ∈ g.forest.ancestors l) :=
      fun hx => hno ⟨l, hl, hx⟩
    rwa [not_or, not_or] at this

/-- The page asked for is the first one or one offered by the last two answers. -/
theorem asked_cases {p : ℕ} (h : g.asked st x = some p) :
    p = 0 ∨ p = st.cursors x ∨ p = st.earlier x := by
  unfold asked at h
  split at h
  · exact .inr (.inl (Option.some.inj h).symm)
  · split at h
    · exact .inl (Option.some.inj h).symm
    · split at h
      · split at h
        · exact .inl (Option.some.inj h).symm
        · exact .inr (.inr (Option.some.inj h).symm)
      · cases h

/-- An excluded id is always asked for its first page. -/
theorem asked_excluded {p : ℕ} (he : g.excluded.contains x = true) (h : g.asked st x = some p) :
    p = 0 := by
  unfold asked at h
  rw [if_neg (by simp [Leaf, he] : ¬ g.Leaf st x)] at h
  split at h
  · exact (Option.some.inj h).symm
  · split at h
    · exact (Option.some.inj h).symm
    · cases h

theorem mem_ids_of_asked (hf : g.forest.Sound) {n p : ℕ} (h : g.askedAt n x = some p) :
    x ∈ g.forest.ids := by
  cases n with
  | zero =>
    by_contra hx
    simp [askedAt, firstAsked, hx] at h
  | succ n =>
    obtain ⟨l, hl, rfl | hx | hx⟩ := exists_leaf_of_asked h
    · exact hl.1
    · exact (hf.mem_ids_of_mem_ancestors hx).2
    · exact (hf.mem_ids_of_mem_ancestors hx).1

/-- What is above an id that is asked for is asked for, too. -/
theorem asked_closed (hf : g.forest.Sound) {n p : ℕ} (h : g.askedAt n x = some p)
    (hy : y ∈ g.forest.ancestors x) : ∃ p', g.askedAt n y = some p' := by
  cases n with
  | zero => exact ⟨0, askedAt_zero (hf.mem_ids_of_mem_ancestors hy).1⟩
  | succ n =>
    obtain ⟨l, hl, hx⟩ := exists_leaf_of_asked h
    rcases hx with rfl | hx | hx
    · exact ⟨_, asked_above hf hl hy⟩
    · rcases hf.ancestors_linear hx hy with rfl | hly | hyl
      · exact ⟨_, asked_leaf hl⟩
      · exact ⟨_, asked_below hl hly⟩
      · exact ⟨_, asked_above hf hl hyl⟩
    · exact ⟨_, asked_above hf hl (hf.ancestors_trans hy hx)⟩

/-- A run that has stopped does not start again. -/
theorem live_of_live_succ {n : ℕ} (h : g.Live (g.run (n + 1))) : g.Live (g.run n) := by
  obtain ⟨x, -, -, hc, -⟩ := h
  rw [cursors_run] at hc
  obtain ⟨p, hp, -⟩ := eq_of_offered_ne_zero hc
  obtain ⟨l, hl, -⟩ := exists_leaf_of_asked hp
  exact ⟨l, hl⟩

theorem Asks.mono {m n : ℕ} (h : g.Asks n) (hmn : m ≤ n) : g.Asks m := by
  induction hmn with
  | refl => exact h
  | @step n _ ih =>
    refine ih ?_
    cases n with
    | zero => trivial
    | succ n => exact live_of_live_succ h

theorem asks_of_asked {n p : ℕ} (h : g.askedAt n x = some p) : g.Asks n := by
  cases n with
  | zero => trivial
  | succ n =>
    obtain ⟨l, hl, -⟩ := exists_leaf_of_asked h
    exact ⟨l, hl⟩

/-! ## Pages that exist -/

/-- What has a page to go on with has several pages. -/
theorem exists_two_le_count {n : ℕ} (h : (g.run n).cursors x ≠ 0) :
    ∃ above, 2 ≤ g.count x above := by
  rw [cursors_run] at h
  obtain ⟨p, -, -, hlt⟩ := eq_of_offered_ne_zero h
  exact ⟨_, Nat.le_trans (Nat.le_add_left 2 _) hlt⟩

theorem genuine_cursors (n : ℕ) (x : QueryId) :
    (g.run n).cursors x = 0 ∨ ∃ above, (g.run n).cursors x < g.count x above := by
  by_cases h : (g.run n).cursors x = 0
  · exact .inl h
  · rw [cursors_run] at h ⊢
    obtain ⟨p, -, hp, hlt⟩ := eq_of_offered_ne_zero h
    exact .inr ⟨_, hp ▸ hlt⟩

/-- A run asks only for pages that exist. -/
theorem genuine_askedAt (n : ℕ) : Genuine g.count (g.askedAt n) := by
  intro x p hp
  cases n with
  | zero =>
    have hx : x ∈ g.forest.ids := by
      by_contra hx
      simp [askedAt, firstAsked, hx] at hp
    rw [askedAt_zero hx] at hp
    exact .inl (Option.some.inj hp).symm
  | succ n =>
    rcases asked_cases hp with rfl | rfl | rfl
    · exact .inl rfl
    · exact genuine_cursors n x
    · cases n with
      | zero => exact .inl rfl
      | succ n => exact genuine_cursors n x

end Paging

end ForestPager
