import ForestPager.Proofs.Paging.Circling
import ForestPager.Proofs.Paging.Numbered
import ForestPager.Proofs.Replay

/-!
# Which runs ask for every choice of pages

For given bounds on the numbers of pages, every run over numbers within the bounds asks
for every choice of pages if and only if the bounds are steady. Already two pages of a
sub-query and three of one below it are too many.

Results:

* `Session.requests_all_iff_steady`: exactly when no choice of pages is left out.
* `exists_not_requested`: a run that leaves out a choice of pages.
-/

namespace ForestPager

/-! ## Any numbers of pages are those of a backend -/

/-- The backend with given numbers of pages, one item on each page and no limit on the
digits of a cursor. -/
def Paged.ofPages (count : PageCount) : Paged where
  count x above := count x (above.map Int.toNat)
  pageSize := 1
  limited := false

theorem Paged.pages_ofPages (count : PageCount) : (ofPages count).pages = count := by
  funext x above
  simp [pages, ofPages, Function.comp_def]

theorem Paged.paginates_ofPages {t : Traversal} (ht : t.Own) (count : PageCount) (q : Request) :
    Paginates t count q ((ofPages count).answer q) := by
  have h := (ofPages count).paginates ht (fun hl => absurd hl Bool.false_ne_true) q
  rwa [pages_ofPages] at h

/-! ## Runs that ask for everything -/

namespace Session

variable {shape : Shape} {t : Traversal} {b : QueryId → ℕ∞}

/-- For numbers of pages within given bounds, every choice of pages of an id and the ids
above it is requested by every run, if and only if the bounds are steady. -/
theorem requests_all_iff_steady (ht : Traversal.ofShape shape = .ok t) (hb : ∀ x, 1 ≤ b x) :
    (∀ count : PageCount, (∀ x above, 1 ≤ count x above) → AtMost count b →
      ∀ answers : ℕ → Request → Outcome, (∀ n q, Paginates t count q (answers n q)) →
      ∀ x ∈ shape.ids, ∀ page : QueryId → ℕ,
        (∀ y ∈ x :: t.forest.ancestors x, page y < count y ((t.forest.ancestors y).map page)) →
        ∃ n q, ((start t ∅).afterCalls answers n).request? = some q ∧
          ∀ y ∈ x :: t.forest.ancestors x, q.submitted? y = some (pageCursor (page y))) ↔
      t.forest.Steady ∅ b := by
  obtain ⟨hown, rfl⟩ := Traversal.own_of_ofShape ht
  constructor
  · intro h
    by_contra hs
    -- bounds that are not steady admit pages at which a run circles and leaves a choice out
    obtain ⟨count, hcount, hle, hcirc⟩ := Paging.exists_circles hown.sound hb hs
    obtain ⟨x, hx, page, hvalid, hskip⟩ := hcirc.skips
    have hans : ∀ (n : ℕ) q, Paginates t count q ((Paged.ofPages count).answer q) := fun _ =>
      Paged.paginates_ofPages hown count
    obtain ⟨n, q, hq, hsub⟩ := h count (fun x above => (hcount x above).1) hle
      (fun _ => (Paged.ofPages count).answer) hans x (hown.ids_eq ▸ hx) page hvalid
    have hasks := asksFor_of_request? hown hans hq
    refine hskip ⟨n, fun y hy => ?_⟩
    have hy' := (hasks y).symm.trans (hsub y hy)
    obtain ⟨p, hp, hpc⟩ := Option.map_eq_some_iff.1 hy'
    rw [hp, pageCursor_injective hpc]
  · intro hs count _ hle answers hans x hx page hvalid
    have hx' : x ∈ t.forest.ids := hown.ids_eq ▸ hx
    let g : Paging := ⟨t.forest, ∅, count⟩
    obtain ⟨n, hn⟩ := Paging.visits_of_valid (g := g) hown.sound hle hs
      (fun x => IdSet.contains_empty x) hx' hvalid
    have hasked := Paging.asks_of_asked (hn x List.mem_cons_self)
    obtain ⟨q, hq, hasks⟩ := exists_request_of_asks hown hans hasked
    refine ⟨n, q, hq, fun y hy => ?_⟩
    rw [hasks y, hn y hy]
    rfl

end Session

/-! ## A sub-query and one that continues from it -/

theorem eq_of_mem_ancestors_twoLevels {x y : QueryId} (h : x ∈ twoLevels.forest.ancestors y) :
    x = "A" ∧ y = "B" := by
  have hf := (Traversal.own_of_ofShape ofShape_twoLevels).1.sound
  have hall : ∀ y ∈ twoLevels.forest.ids, ∀ x ∈ twoLevels.forest.ancestors y,
      x = "A" ∧ y = "B" := by
    decide +kernel
  exact hall y (hf.mem_ids_of_mem_ancestors h).2 x h

/-- Three pages of the upper sub-query of `twoLevels` and two of the lower one. -/
def twoBelowThree : PageCount := fun x _ => if x = "B" then 2 else 3

theorem twoBelowThree_le (x : QueryId) (above : List ℕ) :
    1 ≤ twoBelowThree x above ∧ twoBelowThree x above ≤ 3 := by
  unfold twoBelowThree
  split <;> decide

/-- Bounds that leave these numbers of pages to `twoLevels`. -/
def twoBelow : QueryId → ℕ∞ := fun x => (twoBelowThree x [] : ℕ)

theorem one_le_twoBelow (x : QueryId) : 1 ≤ twoBelow x :=
  Nat.one_le_cast.2 (twoBelowThree_le x []).1

theorem steady_twoBelow (excluded : IdSet) : twoLevels.forest.Steady excluded twoBelow where
  two x y _ _ h := by
    rw [(eq_of_mem_ancestors_twoLevels h).2]
    exact le_rfl
  bottom x y z _ _ _ h h' := by
    have hy := (eq_of_mem_ancestors_twoLevels h).2
    rw [(eq_of_mem_ancestors_twoLevels h').1] at hy
    exact absurd hy (by decide)

theorem atMost_twoBelowThree : AtMost twoBelowThree twoBelow := fun _ _ => le_rfl

/-- The last page of the upper sub-query and that of the lower one are requested together. -/
theorem requests_all_twoLevels :
    ∃ n q, ((Session.start twoLevels ∅).afterCalls
        (fun _ => (Paged.ofPages twoBelowThree).answer) n).request? = some q ∧
      ∀ y ∈ "B" :: twoLevels.forest.ancestors "B",
        q.submitted? y = some (pageCursor (if y = "B" then 1 else 2)) :=
  (Session.requests_all_iff_steady ofShape_twoLevels one_le_twoBelow).2 (steady_twoBelow ∅)
    twoBelowThree (fun x above => (twoBelowThree_le x above).1) atMost_twoBelowThree
    (fun _ => (Paged.ofPages twoBelowThree).answer)
    (fun _ => Paged.paginates_ofPages (Traversal.own_of_ofShape ofShape_twoLevels).1 _)
    "B" (by decide) (fun y => if y = "B" then 1 else 2) (by decide +kernel)

/-- Two pages of the upper sub-query of `twoLevels` and three of the lower one. -/
def threeBelowTwo : PageCount := fun x _ => if x = "A" then 2 else if x = "B" then 3 else 1

/-- The run of `twoLevels` over these numbers of pages. -/
def threeBelowTwoAfter (n : ℕ) : Session :=
  (Session.start twoLevels ∅).afterCalls (fun _ => (Paged.ofPages threeBelowTwo).answer) n

/-- With three pages of the lower sub-query and two of the upper one, the second pages of
both are never requested together. -/
theorem not_requested_twoLevels {n : ℕ} {q : Request}
    (hq : (threeBelowTwoAfter n).request? = some q)
    (hA : q.submitted? "A" = some (pageCursor 1)) (hB : q.submitted? "B" = some (pageCursor 1)) :
    False := by
  have hdone : (threeBelowTwoAfter 3).request? = none := by decide +kernel
  have hfirst : ∀ n < 3, ((threeBelowTwoAfter n).request?.bind fun q =>
      if q.submitted? "A" = some (pageCursor 1) then q.submitted? "B" else none) ≠
        some (pageCursor 1) := by decide +kernel
  rcases Nat.lt_or_ge n 3 with hn | hn
  · refine hfirst n hn ?_
    rw [hq, Option.bind_some, if_pos hA, hB]
  · rw [threeBelowTwoAfter, Session.request?_afterCalls_eq_none hn hdone] at hq
    cases hq

/-- Not every choice of pages is requested. -/
theorem exists_not_requested :
    ¬ ∀ (shape : Shape) (t : Traversal), Traversal.ofShape shape = .ok t →
      ∀ count : PageCount, (∀ x above, 1 ≤ count x above) →
      ∀ answers : ℕ → Request → Outcome, (∀ n q, Paginates t count q (answers n q)) →
      ∀ x ∈ shape.ids, ∀ page : QueryId → ℕ,
        (∀ y ∈ x :: t.forest.ancestors x, page y < count y ((t.forest.ancestors y).map page)) →
        ∃ n q, ((Session.start t ∅).afterCalls answers n).request? = some q ∧
          ∀ y ∈ x :: t.forest.ancestors x, q.submitted? y = some (pageCursor (page y)) := by
  intro h
  have hpos : ∀ x above, 1 ≤ threeBelowTwo x above := by
    intro x above
    unfold threeBelowTwo
    split
    · omega
    · split <;> omega
  obtain ⟨n, q, hq, hsub⟩ := h twoLevels.shape twoLevels ofShape_twoLevels threeBelowTwo hpos
    (fun _ => (Paged.ofPages threeBelowTwo).answer)
    (fun _ => Paged.paginates_ofPages (Traversal.own_of_ofShape ofShape_twoLevels).1 _)
    "B" (by decide) (fun _ => 1) (by decide +kernel)
  exact not_requested_twoLevels hq (hsub "A" (by decide +kernel)) (hsub "B" (by decide +kernel))

end ForestPager
