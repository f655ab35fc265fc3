import ForestPager.Proofs.Paging.Steady
import Mathlib.Data.List.Basic

/-!
# Runs that go round in a circle

Where paging is not steady there are numbers of pages within the bounds for which the
run never ends and never asks for some choice of pages. Either a lower sub-query has
three pages, but only when the upper one stands at its second page: then the upper one
has drifted back before the third page is asked for, and is sent forward again
afterwards. Or three sub-queries on one path have two pages each, the lowest one only
at one choice of the upper ones: then it is the middle one that is asked for at the
wrong page.

Results:

* `Paging.Circles`: a run without end that leaves out a choice of pages.
* `Paging.circles_two`: two sub-queries on a path.
* `Paging.circles_three`: three sub-queries on a path.
* `Paging.exists_circles`: where the bounds are not steady.
-/

namespace ForestPager.Paging

variable {f : Forest} {excluded : IdSet} {P Q R x y : QueryId} {n : ℕ}

/-- A run has no end, and some choice of pages is never asked for. -/
structure Circles (g : Paging) : Prop where
  endless : ∀ n, g.Live (g.run n)
  skips : ∃ x ∈ g.forest.ids, ∃ page, g.Valid x page ∧ ¬ g.Visits x page

/-- Among the pages of the ids above `Q`, the page of `P`. -/
def pageAbove (f : Forest) (P Q : QueryId) (above : List ℕ) : ℕ :=
  above.getD ((f.ancestors Q).idxOf P) 0

theorem pageAbove_map (h : P ∈ f.ancestors Q) (page : QueryId → ℕ) :
    pageAbove f P Q ((f.ancestors Q).map page) = page P := by
  rw [pageAbove, List.getD_eq_getElem?_getD, List.getElem?_map, List.getElem?_idxOf h]
  rfl

/-! ## Two sub-queries on a path -/

/-- Two pages of `P`, and of `Q` two or three, three when `P` stands at its second page. -/
def countTwo (f : Forest) (P Q : QueryId) : PageCount := fun x above =>
  if x = P then 2 else if x = Q then (if pageAbove f P Q above = 0 then 2 else 3) else 1

theorem countTwo_pos (x : QueryId) (above : List ℕ) : 1 ≤ countTwo f P Q x above := by
  unfold countTwo
  split
  · omega
  · split
    · split <;> omega
    · omega

/-- The run over these numbers of pages. -/
abbrev circleTwo (f : Forest) (excluded : IdSet) (P Q : QueryId) : Paging :=
  ⟨f, excluded, countTwo f P Q⟩

/-- The cursors of `P` and `Q` after a request, and the earlier one of `P`. -/
structure AtTwo (f : Forest) (excluded : IdSet) (P Q : QueryId) (n cP cQ eP : ℕ) : Prop where
  upper : ((circleTwo f excluded P Q).run n).cursors P = cP
  lower : ((circleTwo f excluded P Q).run n).cursors Q = cQ
  earlier : ((circleTwo f excluded P Q).run n).earlier P = eP

section Two

variable (hf : f.Sound) (hPQ : P ∈ f.ancestors Q) (heP : excluded.contains P = false)
  (heQ : excluded.contains Q = false) {cP cQ eP : ℕ}

/-- Only `P` and `Q` have a page to go on with. -/
theorem eq_of_cursors_two (hc : ((circleTwo f excluded P Q).run n).cursors x ≠ 0) :
    x = P ∨ x = Q := by
  obtain ⟨above, h⟩ := exists_two_le_count hc
  by_contra hne
  rw [not_or] at hne
  simp [countTwo, hne.1, hne.2] at h

include hf hPQ in
theorem offered_two {asked : AskedPages} {p q : ℕ} (hp : asked P = some p) (hq : asked Q = some q) :
    offered f (countTwo f P Q) asked P = (if p + 1 < 2 then p + 1 else 0) ∧
      offered f (countTwo f P Q) asked Q =
        if q + 1 < (if p = 0 then 2 else 3) then q + 1 else 0 := by
  have hne : Q ≠ P := fun h => hf.not_mem_ancestors_self (h ▸ hPQ)
  refine ⟨?_, ?_⟩
  · rw [offered_of_some hp, countTwo, if_pos rfl]
  · rw [offered_of_some hq, countTwo, if_neg hne, if_pos rfl, pageAbove_map hPQ, hp]
    rfl

include hf hPQ

theorem atTwo_zero : AtTwo f excluded P Q 0 1 1 0 := by
  obtain ⟨hP, hQ⟩ := hf.mem_ids_of_mem_ancestors hPQ
  have haP : (circleTwo f excluded P Q).askedAt 0 P = some 0 := askedAt_zero hP
  have haQ : (circleTwo f excluded P Q).askedAt 0 Q = some 0 := askedAt_zero hQ
  obtain ⟨hcP, hcQ⟩ := offered_two hf hPQ haP haQ
  exact ⟨hcP, hcQ, rfl⟩

include heP heQ

/-- While `Q` has a page to go on with, it goes on and `P` is repeated. -/
theorem AtTwo.of_lower (h : AtTwo f excluded P Q n cP cQ eP) (hc : cQ ≠ 0) :
    (circleTwo f excluded P Q).Leaf ((circleTwo f excluded P Q).run n) Q ∧
      (circleTwo f excluded P Q).askedAt (n + 1) P = some eP ∧
      (circleTwo f excluded P Q).askedAt (n + 1) Q = some cQ ∧
      AtTwo f excluded P Q (n + 1) (if eP + 1 < 2 then eP + 1 else 0)
        (if cQ + 1 < (if eP = 0 then 2 else 3) then cQ + 1 else 0) cP := by
  have hl : (circleTwo f excluded P Q).Leaf ((circleTwo f excluded P Q).run n) Q := by
    refine ⟨(hf.mem_ids_of_mem_ancestors hPQ).2, heQ, h.lower ▸ hc, fun y hy _ => ?_⟩
    by_contra hyc
    rcases eq_of_cursors_two hyc with rfl | rfl
    · exact hf.ancestors_asymm hPQ hy
    · exact hf.not_mem_ancestors_self hy
  have hP : (circleTwo f excluded P Q).askedAt (n + 1) P = some eP := by
    rw [askedAt_succ, asked_above hf hl hPQ, heP, ← h.earlier]
    rfl
  have hQ : (circleTwo f excluded P Q).askedAt (n + 1) Q = some cQ := by
    rw [askedAt_succ, asked_leaf hl, h.lower]
  obtain ⟨hcP, hcQ⟩ := offered_two hf hPQ hP hQ
  exact ⟨hl, hP, hQ, hcP, hcQ, h.upper⟩

/-- When only `P` has a page to go on with, it goes on and `Q` starts over. -/
theorem AtTwo.of_upper (h : AtTwo f excluded P Q n cP 0 eP) (hc : cP ≠ 0) :
    (circleTwo f excluded P Q).Leaf ((circleTwo f excluded P Q).run n) P ∧
      (circleTwo f excluded P Q).askedAt (n + 1) P = some cP ∧
      (circleTwo f excluded P Q).askedAt (n + 1) Q = some 0 ∧
      AtTwo f excluded P Q (n + 1) (if cP + 1 < 2 then cP + 1 else 0)
        (if 0 + 1 < (if cP = 0 then 2 else 3) then 0 + 1 else 0) cP := by
  have hl : (circleTwo f excluded P Q).Leaf ((circleTwo f excluded P Q).run n) P := by
    refine ⟨(hf.mem_ids_of_mem_ancestors hPQ).1, heP, h.upper ▸ hc, fun y hy _ => ?_⟩
    by_contra hyc
    rcases eq_of_cursors_two hyc with rfl | rfl
    · exact hf.not_mem_ancestors_self hy
    · exact hyc h.lower
  have hP : (circleTwo f excluded P Q).askedAt (n + 1) P = some cP := by
    rw [askedAt_succ, asked_leaf hl, h.upper]
  have hQ : (circleTwo f excluded P Q).askedAt (n + 1) Q = some 0 := asked_below hl hPQ
  obtain ⟨hcP, hcQ⟩ := offered_two hf hPQ hP hQ
  exact ⟨hl, hP, hQ, hcP, hcQ, h.upper⟩

/-- The four standings that the run goes through; the first one it does not come back to. -/
theorem atTwo_cases (n : ℕ) : AtTwo f excluded P Q n 1 1 0 ∨ (∃ eP, AtTwo f excluded P Q n 1 0 eP) ∨
    AtTwo f excluded P Q n 0 1 1 ∨ AtTwo f excluded P Q n 0 2 0 := by
  induction n with
  | zero => exact .inl (atTwo_zero hf hPQ)
  | succ n ih =>
    rcases ih with h | ⟨eP, h⟩ | h | h
    · exact .inr (.inl ⟨_, (h.of_lower hf hPQ heP heQ (by decide)).2.2.2⟩)
    · exact .inr (.inr (.inl (h.of_upper hf hPQ heP heQ (by decide)).2.2.2))
    · exact .inr (.inr (.inr (h.of_lower hf hPQ heP heQ (by decide)).2.2.2))
    · exact .inr (.inl ⟨_, (h.of_lower hf hPQ heP heQ (by decide)).2.2.2⟩)

/-- The third page of `Q` is never asked for together with the second page of `P`. -/
theorem not_asked_two (hP : (circleTwo f excluded P Q).askedAt n P = some 1)
    (hQ : (circleTwo f excluded P Q).askedAt n Q = some 2) : False := by
  cases n with
  | zero =>
    rw [askedAt_zero (hf.mem_ids_of_mem_ancestors hPQ).1] at hP
    cases hP
  | succ n =>
    rcases atTwo_cases hf hPQ heP heQ n with h | ⟨eP, h⟩ | h | h
    · rw [(h.of_lower hf hPQ heP heQ (by decide)).2.1] at hP
      cases hP
    · rw [(h.of_upper hf hPQ heP heQ (by decide)).2.2.1] at hQ
      cases hQ
    · rw [(h.of_lower hf hPQ heP heQ (by decide)).2.2.1] at hQ
      cases hQ
    · rw [(h.of_lower hf hPQ heP heQ (by decide)).2.1] at hP
      cases hP

theorem circles_two : (circleTwo f excluded P Q).Circles where
  endless n := by
    rcases atTwo_cases hf hPQ heP heQ n with h | ⟨eP, h⟩ | h | h
    · exact ⟨Q, (h.of_lower hf hPQ heP heQ (by decide)).1⟩
    · exact ⟨P, (h.of_upper hf hPQ heP heQ (by decide)).1⟩
    · exact ⟨Q, (h.of_lower hf hPQ heP heQ (by decide)).1⟩
    · exact ⟨Q, (h.of_lower hf hPQ heP heQ (by decide)).1⟩
  skips := by
    have hne : Q ≠ P := fun h => hf.not_mem_ancestors_self (h ▸ hPQ)
    refine ⟨Q, (hf.mem_ids_of_mem_ancestors hPQ).2,
      fun y => if y = P then 1 else if y = Q then 2 else 0, fun y _ => ?_, ?_⟩
    · by_cases hyP : y = P
      · simp [hyP, countTwo]
      · by_cases hyQ : y = Q
        · subst hyQ
          simp [hne, countTwo, pageAbove_map hPQ]
        · simp only [hyP, hyQ, if_false]
          exact countTwo_pos y _
    · rintro ⟨n, hn⟩
      have hP := hn P (List.mem_cons_of_mem _ hPQ)
      have hQ := hn Q List.mem_cons_self
      simp only [if_pos, if_neg hne] at hP hQ
      exact not_asked_two hf hPQ heP heQ hP hQ

end Two

/-! ## Three sub-queries on a path -/

/-- Two pages of `P` and of `Q`, and two of `R` when `P` stands at its second page and `Q`
at its first. -/
def countThree (f : Forest) (P Q R : QueryId) : PageCount := fun x above =>
  if x = P then 2 else if x = Q then 2
  else if x = R then (if pageAbove f P R above = 1 ∧ pageAbove f Q R above = 0 then 2 else 1)
  else 1

theorem countThree_pos (x : QueryId) (above : List ℕ) : 1 ≤ countThree f P Q R x above := by
  unfold countThree
  split
  · omega
  · split
    · omega
    · split
      · split <;> omega
      · omega

/-- The run over these numbers of pages. -/
abbrev circleThree (f : Forest) (excluded : IdSet) (P Q R : QueryId) : Paging :=
  ⟨f, excluded, countThree f P Q R⟩

/-- The cursors of `P`, `Q` and `R` after a request, and the earlier ones of `P` and `Q`. -/
structure AtThree (f : Forest) (excluded : IdSet) (P Q R : QueryId) (n cP cQ cR eP eQ : ℕ) :
    Prop where
  top : ((circleThree f excluded P Q R).run n).cursors P = cP
  mid : ((circleThree f excluded P Q R).run n).cursors Q = cQ
  low : ((circleThree f excluded P Q R).run n).cursors R = cR
  earlierTop : ((circleThree f excluded P Q R).run n).earlier P = eP
  earlierMid : ((circleThree f excluded P Q R).run n).earlier Q = eQ

section Three

variable (hf : f.Sound) (hPQ : P ∈ f.ancestors Q) (hQR : Q ∈ f.ancestors R)
  (heP : excluded.contains P = false) (heQ : excluded.contains Q = false)
  (heR : excluded.contains R = false) {cP cQ cR eP eQ : ℕ}

/-- Only `P`, `Q` and `R` have a page to go on with. -/
theorem eq_of_cursors_three (hc : ((circleThree f excluded P Q R).run n).cursors x ≠ 0) :
    x = P ∨ x = Q ∨ x = R := by
  obtain ⟨above, h⟩ := exists_two_le_count hc
  by_contra hne
  rw [not_or, not_or] at hne
  simp [countThree, hne.1, hne.2.1, hne.2.2] at h

include hf hPQ hQR

theorem offered_three {asked : AskedPages} {p q r : ℕ} (hp : asked P = some p)
    (hq : asked Q = some q) (hr : asked R = some r) :
    offered f (countThree f P Q R) asked P = (if p + 1 < 2 then p + 1 else 0) ∧
      offered f (countThree f P Q R) asked Q = (if q + 1 < 2 then q + 1 else 0) ∧
      offered f (countThree f P Q R) asked R =
        if r + 1 < (if p = 1 ∧ q = 0 then 2 else 1) then r + 1 else 0 := by
  have hPR := hf.ancestors_trans hPQ hQR
  have hQP : Q ≠ P := fun h => hf.not_mem_ancestors_self (h ▸ hPQ)
  have hRP : R ≠ P := fun h => hf.not_mem_ancestors_self (h ▸ hPR)
  have hRQ : R ≠ Q := fun h => hf.not_mem_ancestors_self (h ▸ hQR)
  refine ⟨?_, ?_, ?_⟩
  · rw [offered_of_some hp, countThree, if_pos rfl]
  · rw [offered_of_some hq, countThree, if_neg hQP, if_pos rfl]
  · rw [offered_of_some hr, countThree, if_neg hRP, if_neg hRQ, if_pos rfl, pageAbove_map hPR,
      pageAbove_map hQR, hp, hq]
    rfl

theorem atThree_zero : AtThree f excluded P Q R 0 1 1 0 0 0 := by
  obtain ⟨hP, hQ⟩ := hf.mem_ids_of_mem_ancestors hPQ
  have haP : (circleThree f excluded P Q R).askedAt 0 P = some 0 := askedAt_zero hP
  have haQ : (circleThree f excluded P Q R).askedAt 0 Q = some 0 := askedAt_zero hQ
  have haR : (circleThree f excluded P Q R).askedAt 0 R = some 0 :=
    askedAt_zero (hf.mem_ids_of_mem_ancestors hQR).2
  obtain ⟨hcP, hcQ, hcR⟩ := offered_three hf hPQ hQR haP haQ haR
  exact ⟨hcP, hcQ, hcR, rfl, rfl⟩

include heP heQ heR

/-- While `R` has a page to go on with, it goes on, and `P` and `Q` are repeated. -/
theorem AtThree.of_low (h : AtThree f excluded P Q R n cP cQ cR eP eQ) (hc : cR ≠ 0) :
    (circleThree f excluded P Q R).Leaf ((circleThree f excluded P Q R).run n) R ∧
      (circleThree f excluded P Q R).askedAt (n + 1) P = some eP ∧
      (circleThree f excluded P Q R).askedAt (n + 1) Q = some eQ ∧
      AtThree f excluded P Q R (n + 1) (if eP + 1 < 2 then eP + 1 else 0)
        (if eQ + 1 < 2 then eQ + 1 else 0)
        (if cR + 1 < (if eP = 1 ∧ eQ = 0 then 2 else 1) then cR + 1 else 0) cP cQ := by
  have hPR := hf.ancestors_trans hPQ hQR
  have hl : (circleThree f excluded P Q R).Leaf ((circleThree f excluded P Q R).run n) R := by
    refine ⟨(hf.mem_ids_of_mem_ancestors hQR).2, heR, h.low ▸ hc, fun y hy _ => ?_⟩
    by_contra hyc
    rcases eq_of_cursors_three hyc with rfl | rfl | rfl
    · exact hf.ancestors_asymm hPR hy
    · exact hf.ancestors_asymm hQR hy
    · exact hf.not_mem_ancestors_self hy
  have hP : (circleThree f excluded P Q R).askedAt (n + 1) P = some eP := by
    rw [askedAt_succ, asked_above hf hl hPR, heP, ← h.earlierTop]
    rfl
  have hQ : (circleThree f excluded P Q R).askedAt (n + 1) Q = some eQ := by
    rw [askedAt_succ, asked_above hf hl hQR, heQ, ← h.earlierMid]
    rfl
  have hR : (circleThree f excluded P Q R).askedAt (n + 1) R = some cR := by
    rw [askedAt_succ, asked_leaf hl, h.low]
  obtain ⟨hcP, hcQ, hcR⟩ := offered_three hf hPQ hQR hP hQ hR
  exact ⟨hl, hP, hQ, hcP, hcQ, hcR, h.top, h.mid⟩

/-- When `R` has no page to go on with but `Q` has, `Q` goes on, `P` is repeated and `R`
starts over. -/
theorem AtThree.of_mid (h : AtThree f excluded P Q R n cP cQ 0 eP eQ) (hc : cQ ≠ 0) :
    (circleThree f excluded P Q R).Leaf ((circleThree f excluded P Q R).run n) Q ∧
      (circleThree f excluded P Q R).askedAt (n + 1) P = some eP ∧
      (circleThree f excluded P Q R).askedAt (n + 1) Q = some cQ ∧
      AtThree f excluded P Q R (n + 1) (if eP + 1 < 2 then eP + 1 else 0)
        (if cQ + 1 < 2 then cQ + 1 else 0)
        (if 0 + 1 < (if eP = 1 ∧ cQ = 0 then 2 else 1) then 0 + 1 else 0) cP cQ := by
  have hl : (circleThree f excluded P Q R).Leaf ((circleThree f excluded P Q R).run n) Q := by
    refine ⟨(hf.mem_ids_of_mem_ancestors hPQ).2, heQ, h.mid ▸ hc, fun y hy _ => ?_⟩
    by_contra hyc
    rcases eq_of_cursors_three hyc with rfl | rfl | rfl
    · exact hf.ancestors_asymm hPQ hy
    · exact hf.not_mem_ancestors_self hy
    · exact hyc h.low
  have hP : (circleThree f excluded P Q R).askedAt (n + 1) P = some eP := by
    rw [askedAt_succ, asked_above hf hl hPQ, heP, ← h.earlierTop]
    rfl
  have hQ : (circleThree f excluded P Q R).askedAt (n + 1) Q = some cQ := by
    rw [askedAt_succ, asked_leaf hl, h.mid]
  have hR : (circleThree f excluded P Q R).askedAt (n + 1) R = some 0 := asked_below hl hQR
  obtain ⟨hcP, hcQ, hcR⟩ := offered_three hf hPQ hQR hP hQ hR
  exact ⟨hl, hP, hQ, hcP, hcQ, hcR, h.top, h.mid⟩

/-- When only `P` has a page to go on with, it goes on, and `Q` and `R` start over. -/
theorem AtThree.of_top (h : AtThree f excluded P Q R n cP 0 0 eP eQ) (hc : cP ≠ 0) :
    (circleThree f excluded P Q R).Leaf ((circleThree f excluded P Q R).run n) P ∧
      (circleThree f excluded P Q R).askedAt (n + 1) P = some cP ∧
      (circleThree f excluded P Q R).askedAt (n + 1) Q = some 0 ∧
      AtThree f excluded P Q R (n + 1) (if cP + 1 < 2 then cP + 1 else 0)
        (if 0 + 1 < 2 then 0 + 1 else 0)
        (if 0 + 1 < (if cP = 1 ∧ 0 = 0 then 2 else 1) then 0 + 1 else 0) cP 0 := by
  have hl : (circleThree f excluded P Q R).Leaf ((circleThree f excluded P Q R).run n) P := by
    refine ⟨(hf.mem_ids_of_mem_ancestors hPQ).1, heP, h.top ▸ hc, fun y hy _ => ?_⟩
    by_contra hyc
    rcases eq_of_cursors_three hyc with rfl | rfl | rfl
    · exact hf.not_mem_ancestors_self hy
    · exact hyc h.mid
    · exact hyc h.low
  have hP : (circleThree f excluded P Q R).askedAt (n + 1) P = some cP := by
    rw [askedAt_succ, asked_leaf hl, h.top]
  have hQ : (circleThree f excluded P Q R).askedAt (n + 1) Q = some 0 := asked_below hl hPQ
  have hR : (circleThree f excluded P Q R).askedAt (n + 1) R = some 0 :=
    asked_below hl (hf.ancestors_trans hPQ hQR)
  obtain ⟨hcP, hcQ, hcR⟩ := offered_three hf hPQ hQR hP hQ hR
  exact ⟨hl, hP, hQ, hcP, hcQ, hcR, h.top, h.mid⟩

/-- The four standings that the run goes through; the first one it does not come back to. -/
theorem atThree_cases (n : ℕ) : AtThree f excluded P Q R n 1 1 0 0 0 ∨
    (∃ eP eQ, AtThree f excluded P Q R n 1 0 0 eP eQ) ∨ AtThree f excluded P Q R n 0 1 1 1 0 ∨
    ∃ eQ, AtThree f excluded P Q R n 0 1 0 0 eQ := by
  induction n with
  | zero => exact .inl (atThree_zero hf hPQ hQR)
  | succ n ih =>
    rcases ih with h | ⟨eP, eQ, h⟩ | h | ⟨eQ, h⟩
    · exact .inr (.inl ⟨_, _, (h.of_mid hf hPQ hQR heP heQ heR (by decide)).2.2.2⟩)
    · exact .inr (.inr (.inl (h.of_top hf hPQ hQR heP heQ heR (by decide)).2.2.2))
    · exact .inr (.inr (.inr ⟨_, (h.of_low hf hPQ hQR heP heQ heR (by decide)).2.2.2⟩))
    · exact .inr (.inl ⟨_, _, (h.of_mid hf hPQ hQR heP heQ heR (by decide)).2.2.2⟩)

/-- The second pages of `P` and `Q` are never asked for together. -/
theorem not_asked_three (hP : (circleThree f excluded P Q R).askedAt n P = some 1)
    (hQ : (circleThree f excluded P Q R).askedAt n Q = some 1) : False := by
  cases n with
  | zero =>
    rw [askedAt_zero (hf.mem_ids_of_mem_ancestors hPQ).1] at hP
    cases hP
  | succ n =>
    rcases atThree_cases hf hPQ hQR heP heQ heR n with h | ⟨eP, eQ, h⟩ | h | ⟨eQ, h⟩
    · rw [(h.of_mid hf hPQ hQR heP heQ heR (by decide)).2.1] at hP
      cases hP
    · rw [(h.of_top hf hPQ hQR heP heQ heR (by decide)).2.2.1] at hQ
      cases hQ
    · rw [(h.of_low hf hPQ hQR heP heQ heR (by decide)).2.2.1] at hQ
      cases hQ
    · rw [(h.of_mid hf hPQ hQR heP heQ heR (by decide)).2.1] at hP
      cases hP

theorem circles_three : (circleThree f excluded P Q R).Circles where
  endless n := by
    rcases atThree_cases hf hPQ hQR heP heQ heR n with h | ⟨eP, eQ, h⟩ | h | ⟨eQ, h⟩
    · exact ⟨Q, (h.of_mid hf hPQ hQR heP heQ heR (by decide)).1⟩
    · exact ⟨P, (h.of_top hf hPQ hQR heP heQ heR (by decide)).1⟩
    · exact ⟨R, (h.of_low hf hPQ hQR heP heQ heR (by decide)).1⟩
    · exact ⟨Q, (h.of_mid hf hPQ hQR heP heQ heR (by decide)).1⟩
  skips := by
    have hne : Q ≠ P := fun h => hf.not_mem_ancestors_self (h ▸ hPQ)
    refine ⟨Q, (hf.mem_ids_of_mem_ancestors hPQ).2,
      fun y => if y = P then 1 else if y = Q then 1 else 0, fun y hy => ?_, ?_⟩
    · by_cases hyP : y = P
      · simp [hyP, countThree]
      · by_cases hyQ : y = Q
        · simp [hyQ, hne, countThree]
        · simp only [hyP, hyQ, if_false]
          exact countThree_pos y _
    · rintro ⟨n, hn⟩
      have hP := hn P (List.mem_cons_of_mem _ hPQ)
      have hQ := hn Q List.mem_cons_self
      simp only [if_pos, if_neg hne] at hP hQ
      exact not_asked_three hf hPQ hQR heP heQ heR hP hQ

end Three

/-! ## Where the bounds are not steady -/

variable {b : QueryId → ℕ∞}

theorem countTwo_le (x : QueryId) (above : List ℕ) : countTwo f P Q x above ≤ 3 := by
  unfold countTwo
  split
  · omega
  · split
    · split <;> omega
    · omega

theorem countThree_le (x : QueryId) (above : List ℕ) : countThree f P Q R x above ≤ 3 := by
  unfold countThree
  split
  · omega
  · split
    · omega
    · split
      · split <;> omega
      · omega

theorem atMost_countTwo (hb : ∀ x, 1 ≤ b x) (hP : 2 ≤ b P) (hQ : 3 ≤ b Q) :
    AtMost (countTwo f P Q) b := by
  intro x above
  unfold countTwo
  split
  · next h => exact h ▸ hP
  · split
    · next h =>
      rw [h]
      split
      · exact le_trans (by decide) hQ
      · exact hQ
    · exact hb x

theorem atMost_countThree (hb : ∀ x, 1 ≤ b x) (hP : 2 ≤ b P) (hQ : 2 ≤ b Q) (hR : 2 ≤ b R) :
    AtMost (countThree f P Q R) b := by
  intro x above
  unfold countThree
  split
  · next h => exact h ▸ hP
  · split
    · next h => exact h ▸ hQ
    · split
      · next h =>
        rw [h]
        split
        · exact hR
        · exact hb R
      · exact hb x

/-- Where the bounds are not steady, some numbers of pages within them make a run go round
in a circle. -/
theorem exists_circles (hf : f.Sound) (hb : ∀ x, 1 ≤ b x) (hs : ¬ f.Steady excluded b) :
    ∃ count : PageCount, (∀ x above, 1 ≤ count x above ∧ count x above ≤ 3) ∧ AtMost count b ∧
      (⟨f, excluded, count⟩ : Paging).Circles := by
  by_cases htwo : ∀ x y, f.Several excluded b x → f.Several excluded b y → x ∈ f.ancestors y →
      b y ≤ 2
  · have hbottom : ¬ ∀ x y z, f.Several excluded b x → f.Several excluded b y →
        f.Several excluded b z → x ∈ f.ancestors y → y ∉ f.ancestors z := fun h => hs ⟨htwo, h⟩
    simp only [not_forall, not_not] at hbottom
    obtain ⟨P, Q, R, hP, hQ, hR, hPQ, hQR⟩ := hbottom
    exact ⟨countThree f P Q R, fun x above => ⟨countThree_pos x above, countThree_le x above⟩,
      atMost_countThree hb hP.2.2 hQ.2.2 hR.2.2,
      circles_three hf hPQ hQR hP.2.1 hQ.2.1 hR.2.1⟩
  · simp only [not_forall, not_le] at htwo
    obtain ⟨P, Q, hP, hQ, hPQ, hlt⟩ := htwo
    exact ⟨countTwo f P Q, fun x above => ⟨countTwo_pos x above, countTwo_le x above⟩,
      atMost_countTwo hb hP.2.2 (Order.add_one_le_of_lt hlt), circles_two hf hPQ hP.2.1 hQ.2.1⟩

end ForestPager.Paging
