import ForestPager.Proofs.Paging.Calls
import ForestPager.Proofs.Paging.Coverage

/-!
# Which runs come to an end

For given bounds on the numbers of pages, every run over numbers within the bounds comes
to an end if and only if the bounds are steady. This is the same condition as for asking
for every choice of pages: where it fails, a run goes round in a circle.

Results:

* `Session.Reaches.exists_drain`, `Session.Reaches.exists_gather`: a run whose standing
  stops comes to an end.
* `Session.Reaches.not_isFinished_drain`: a run whose standing never stops does not.
* `Session.terminates_iff_steady`: exactly when every run comes to an end.
* `exists_not_terminating`: a run that does not.
-/

namespace ForestPager

namespace Session

variable {σ : Type} {fetch : Request → StateM σ Outcome} {s : Session} {g : Paging} {n : ℕ}

/-! ## Runs that come to an end -/

/-- A run whose standing stops is finished after some number of calls. -/
theorem Reaches.exists_drain (hfetch : Serves fetch s.traversal g.count) {N : ℕ} (hN : ¬ g.Asks N)
    (h : s.Reaches g n) (st : σ) :
    ∃ calls, ((s.drain fetch calls).run st).1.failure = none ∧
      ((s.drain fetch calls).run st).1.session.isFinished = true := by
  refine h.induction_to_end (motive := fun _ s st => ∃ calls,
    ((s.drain fetch calls).run st).1.failure = none ∧
      ((s.drain fetch calls).run st).1.session.isFinished = true) ?_ ?_ hfetch hN rfl st
  · intro n s st _ hf
    exact ⟨0, rfl, hf⟩
  · rintro n n' s st c st' page hnf hc hpage - ⟨calls, hfail, hfin⟩
    obtain ⟨hfail', hsess'⟩ := run_drain_succ hnf hc hpage calls
    exact ⟨calls + 1, hfail'.trans hfail, hsess' ▸ hfin⟩

/-- The items of a run whose standing stops are gathered with some number of calls. -/
theorem Reaches.exists_gather {κ : Type} [DecidableEq κ] {key : Option (Json → Except Failure κ)}
    (hkey : TotalKey key) (hfetch : Serves fetch s.traversal g.count) {N : ℕ} (hN : ¬ g.Asks N)
    (h : s.Reaches g n) (st : σ) (met : KeysMet κ) :
    ∃ calls items, ((gather fetch key none calls s met).run st).1.ending = .complete items := by
  revert met
  refine h.induction_to_end (motive := fun _ s st => ∀ met, ∃ calls items,
    ((gather fetch key none calls s met).run st).1.ending = .complete items) ?_ ?_ hfetch hN rfl st
  · intro n s st _ hf met
    refine ⟨0, ∅, ?_⟩
    rw [gather_of_finished _ _ _ _ hf]
    rfl
  · intro n n' s st c st' page hnf hc hpage _ ih met
    obtain ⟨⟨met', kept⟩, hkeep⟩ := gatherPage_of_total hkey met page.items
    obtain ⟨calls, items, hend⟩ := ih met'
    refine ⟨calls + 1, kept.append items, ?_⟩
    rw [run_gather_succ hnf hc hpage hkeep, hend]
    rfl

/-! ## Runs that do not -/

/-- A run whose standing never stops is never finished. -/
theorem Reaches.not_isFinished_drain (hend : ∀ n, g.Asks n) {t : Traversal}
    (hfetch : Serves fetch t g.count) (h : s.Reaches g n) (ht : s.traversal = t) (calls : ℕ)
    (st : σ) : ((s.drain fetch calls).run st).1.session.isFinished = false := by
  induction calls generalizing s n st with
  | zero => exact h.not_isFinished (hend n)
  | succ calls ih =>
    obtain ⟨c, st', page, hc, hpage, htrav, hnext⟩ := h.run_nextPage (hend n) (ht ▸ hfetch) st
    rw [(run_drain_succ (h.not_isFinished (hend n)) hc hpage calls).2]
    exact ih hnext (htrav.trans ht) st'

variable {shape : Shape} {t : Traversal} {b : QueryId → ℕ∞} {excluded : IdSet} {count : PageCount}

theorem serves_ofPages (ht : t.Own) (count : PageCount) :
    Serves (Paged.ofPages count).fetch t count :=
  fun q _ => Paged.paginates_ofPages ht count q

/-- A run that goes round in a circle is never finished. -/
theorem not_isFinished_of_circles (ht : t.Own)
    (hcirc : (⟨t.forest, excluded, count⟩ : Paging).Circles) (calls : ℕ) :
    (((start t excluded).drain (Paged.ofPages count).fetch calls).run ()).1.session.isFinished =
      false := by
  have hend : ∀ n, (⟨t.forest, excluded, count⟩ : Paging).Asks n := by
    intro n
    cases n with
    | zero => trivial
    | succ n => exact hcirc.endless n
  exact (reaches_start ht excluded count).not_isFinished_drain hend (serves_ofPages ht count) rfl
    calls ()

/-! ## The condition -/

/-- For numbers of pages within given bounds, every run comes to an end, and gathering its
items returns, if and only if the bounds are steady. -/
theorem terminates_iff_steady (ht : Traversal.ofShape shape = .ok t) (excluded : IdSet)
    (hb : ∀ x, 1 ≤ b x) :
    (∀ count : PageCount, (∃ most, ∀ x above, count x above ≤ most) → AtMost count b →
      ∀ (σ : Type) (fetch : Request → StateM σ Outcome), Serves fetch t count → ∀ st : σ,
        (∃ calls, (((start t excluded).drain fetch calls).run st).1.failure = none ∧
          (((start t excluded).drain fetch calls).run st).1.session.isFinished = true) ∧
        ∀ (κ : Type) [DecidableEq κ] (key : Option (Json → Except Failure κ)), TotalKey key →
          ∃ items, Gathers shape excluded fetch key none st (.complete items)) ↔
      t.forest.Steady excluded b := by
  have hown := (Traversal.own_of_ofShape ht).1
  constructor
  · intro h
    by_contra hs
    obtain ⟨count, hcount, hle, hcirc⟩ := Paging.exists_circles hown.sound hb hs
    obtain ⟨⟨calls, -, hfin⟩, -⟩ := h count ⟨3, fun x above => (hcount x above).2⟩ hle Unit _
      (serves_ofPages hown count) ()
    rw [not_isFinished_of_circles hown hcirc] at hfin
    cases hfin
  · intro hs count _ hle σ fetch hfetch st
    obtain ⟨N, hN⟩ := Paging.exists_not_live (g := ⟨t.forest, excluded, count⟩) hown.sound hle hs
    have hreach := reaches_start hown excluded count
    have hN' : ¬ (⟨t.forest, excluded, count⟩ : Paging).Asks (N + 1) := hN
    refine ⟨hreach.exists_drain hfetch hN' st, fun κ _ key hkey => ?_⟩
    obtain ⟨calls, items, hend⟩ := hreach.exists_gather hkey hfetch hN' st ∅
    refine ⟨items, by simp, calls, ?_⟩
    rw [run_gatherAll ht, hend]

end Session

/-! ## A sub-query and one that continues from it -/

/-- With two pages of the lower sub-query of `twoLevels` and three of the upper one the run
ends. -/
theorem terminates_twoLevels :
    (∃ calls, (((Session.start twoLevels ∅).drain (Paged.ofPages twoBelowThree).fetch calls).run
        ()).1.failure = none ∧
      (((Session.start twoLevels ∅).drain (Paged.ofPages twoBelowThree).fetch calls).run
        ()).1.session.isFinished = true) ∧
    ∃ items, Gathers twoLevels.shape ∅ (Paged.ofPages twoBelowThree).fetch
      (none : Option (Json → Except Failure Unit)) none () (.complete items) :=
  have hends := (Session.terminates_iff_steady ofShape_twoLevels ∅ one_le_twoBelow).2
    (steady_twoBelow ∅) twoBelowThree ⟨3, fun x above => (twoBelowThree_le x above).2⟩
    atMost_twoBelowThree Unit _
    (Session.serves_ofPages (Traversal.own_of_ofShape ofShape_twoLevels).1 twoBelowThree) ()
  ⟨hends.1, hends.2 Unit none fun _ h => absurd h (Option.not_mem_none _)⟩

/-- Not every run over bounded numbers of pages comes to an end. -/
theorem exists_not_terminating :
    ¬ ∀ (shape : Shape) (t : Traversal), Traversal.ofShape shape = .ok t →
      ∀ (excluded : IdSet) (count : PageCount), (∃ most, ∀ x above, count x above ≤ most) →
      ∀ (σ : Type) (fetch : Request → StateM σ Outcome), Session.Serves fetch t count →
      ∀ st : σ, ∃ calls,
        (((Session.start t excluded).drain fetch calls).run st).1.session.isFinished = true := by
  intro h
  have hown := (Traversal.own_of_ofShape ofShape_twoLevels).1
  obtain ⟨calls, hfin⟩ := h twoLevels.shape twoLevels ofShape_twoLevels ∅
    (Paging.countTwo twoLevels.forest "A" "B") ⟨3, Paging.countTwo_le⟩ Unit _
    (Session.serves_ofPages hown _) ()
  rw [Session.not_isFinished_of_circles hown] at hfin
  · cases hfin
  · exact Paging.circles_two hown.sound (by decide +kernel) rfl rfl

end ForestPager
