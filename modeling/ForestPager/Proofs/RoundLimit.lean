import ForestPager.Gather.Identity
import ForestPager.Proofs.PageByPage
import ForestPager.Proofs.Paging.Numbered
import ForestPager.Proofs.Replay

/-!
# A limit on the rounds only cuts off

Gathering all items of a query with at most `n` rounds makes the calls of the first `n` pages of
the query and no others. A run that is over by then, whether it is finished or failed, ends as
without the limit; any other run fails because of the limit, after `n` pages. The fetches are
counted beside the state of the service, whatever the service does.

Results:

* `run_gatherAll_upTo`: gathering with a limit, by as many pages.
* `run_gatherAll_asked_le`: no more fetches than rounds.
* `limit_cuts_off`: what gathering with a limit comes to.
-/

namespace ForestPager

variable {σ κ : Type} [DecidableEq κ] {fetch : Request → StateM σ Outcome}
  {key : Option (Json → Except Failure κ)} {shape : Shape} {t : Traversal} {n : ℕ}

/-! ## Pages -/

theorem one_le_of_mem_some (hn : 1 ≤ n) : ∀ rounds ∈ some (n : Int), 1 ≤ rounds := by
  rintro rounds hrounds
  cases hrounds
  omega

/-- Gathering all items with a limit, when what is kept of as many pages is known. -/
theorem run_gatherAll_upTo (ht : Traversal.ofShape shape = .ok t) (excluded : IdSet) {st : σ}
    (hn : 1 ≤ n) {items : Items}
    (hitems : gatherPages key ∅ (((Session.start t excluded).drain fetch n).run st).1.pages =
      .ok items) {calls : ℕ} (hcalls : n ≤ calls) :
    (gatherAll shape excluded fetch key (some n) calls).run st =
      let run := ((Session.start t excluded).drain fetch n).run st
      (⟨run.1.ending items (.failed (.tooManyRounds n)),
        .forestBuilt t.forest.size t.forest.roots :: run.1.events⟩, run.2) := by
  have hrun : (gather fetch key (some n) calls (Session.start t excluded) ∅).run st = _ :=
    run_gather_upTo hn hcalls (Nat.zero_add n) hitems
  rw [run_gatherAll_limited ht excluded (one_le_of_mem_some hn), hrun]
  rfl

/-! ## Counting the fetches -/

/-- A service together with the number of fetches so far. -/
def counting (fetch : Request → StateM σ Outcome) (q : Request) : StateM (σ × ℕ) Outcome :=
  fun st => (((fetch q).run st.1).1, ((fetch q).run st.1).2, st.2 + 1)

section Counting

variable {s : Session} {st : σ × ℕ} {met : KeysMet κ}

/-- A call makes at most one fetch. -/
theorem Session.run_nextPage_asked_le :
    ((s.nextPage (counting fetch)).run st).2.2 ≤ st.2 + 1 := by
  cases ho : s.traversal.opening s.round with
  | refused =>
    rw [nextPage_of_finished _ ((isFinished_iff_refused s).2 ho)]
    exact Nat.le_succ _
  | closing =>
    rw [run_nextPage_of_closing ho fun _ => .error Failure.sessionOver]
    exact Nat.le_succ _
  | asking leaves q =>
    rw [run_nextPage_of_asking ho]
    exact Nat.le_refl _

/-- Gathering makes no more fetches than there are rounds left. -/
theorem run_gather_asked_le {k limit : ℕ} (hk : 1 ≤ k) (hlimit : s.roundsRun + k = limit) (n : ℕ) :
    ((gather (counting fetch) key (some limit) n s met).run st).2.2 ≤ st.2 + k := by
  induction n generalizing s st met k with
  | zero =>
    unfold gather
    split <;> exact Nat.le_add_right _ _
  | succ n ih =>
    cases hf : s.isFinished with
    | true =>
      rw [gather_of_finished _ _ _ _ hf]
      exact Nat.le_add_right _ _
    | false =>
      obtain ⟨answer, st', hcall⟩ := Session.exists_run_nextPage (counting fetch) s st
      have hasked : st'.2 ≤ st.2 + 1 := by
        have h := @Session.run_nextPage_asked_le _ fetch s st
        rwa [hcall] at h
      have hone : st'.2 ≤ st.2 + k := by omega
      have hrounds := s.roundsRun_turn answer
      rw [run_gather_limited hf hcall]
      cases hres : (s.turn answer).call.result with
      | error e => exact hone
      | ok page =>
        rw [Turn.madePage_of_ok hres, if_pos rfl] at hrounds
        cases hkeep : gatherPage key met page.items with
        | error e =>
          simp only [hkeep]
          exact hone
        | ok kept =>
          simp only [hkeep]
          cases hover : overLimit (some (limit : Int)) (s.turn answer).call.session with
          | some e => exact hone
          | none =>
            cases hf' : (s.turn answer).call.session.isFinished with
            | true =>
              rw [gather_of_finished _ _ _ _ hf']
              exact hone
            | false =>
              -- the limit was not hit, so there is a round left
              have hleft : 2 ≤ k := by
                by_contra hlt
                rw [overLimit_of_le hf' (by omega)] at hover
                cases hover
              have hrest := @ih _ st' kept.1 (k - 1) (by omega)
                (show (s.turn answer).call.session.roundsRun + (k - 1) = limit by omega)
              exact Nat.le_trans hrest (by omega)

/-- Gathering all items with a limit makes no more fetches than the limit says. -/
theorem run_gatherAll_asked_le (ht : Traversal.ofShape shape = .ok t) (excluded : IdSet)
    (hn : 1 ≤ n) (calls : ℕ) :
    ((gatherAll shape excluded (counting fetch) key (some n) calls).run st).2.2 ≤ st.2 + n := by
  rw [run_gatherAll_limited ht excluded (one_le_of_mem_some hn)]
  exact run_gather_asked_le hn (Nat.zero_add n) calls

end Counting

/-! ## With and without a limit -/

/-- A limit on the rounds only cuts off. Where a run is finished after `n` rounds or earlier,
gathering gives the same items with the limit `n` as without it, and where a call fails after
fewer than `n` rounds it gives the same failure. In every other case it fails because of the
limit, after `n` pages. Given at least `n` calls it reports and leaves behind what going through
`n` pages does; and it never fetches more than `n` times. -/
theorem limit_cuts_off (ht : Traversal.ofShape shape = .ok t) (excluded : IdSet)
    (fetch : Request → StateM σ Outcome) (state : σ) (key : Option (Json → Except Failure κ))
    (hn : 1 ≤ n)
    (hkey : ∀ page ∈
      (((Session.start t excluded).drain (counting fetch) n).run (state, 0)).1.pages,
      KeysItems key page.items) :
    let start := Session.start t excluded
    let run := (start.drain (counting fetch) n).run (state, 0)
    let unlimited := Gathers shape excluded (counting fetch) key none (state, 0)
    let limited := Gathers shape excluded (counting fetch) key (some n) (state, 0)
    let gathering := fun calls =>
      (gatherAll shape excluded (counting fetch) key (some n) calls).run (state, 0)
    (∀ k ≤ n, start.FinishesAfter (counting fetch) (state, 0) k →
      ∃ items, unlimited (.complete items) ∧ limited (.complete items)) ∧
    (∀ j < n, ∀ e, start.FailsAfter (counting fetch) (state, 0) j e →
      unlimited (.failed e) ∧ limited (.failed e)) ∧
    ((∀ k ≤ n, ¬ start.FinishesAfter (counting fetch) (state, 0) k) →
      (∀ j < n, ∀ e, ¬ start.FailsAfter (counting fetch) (state, 0) j e) →
      limited (.failed (.query ("Pagination did not finish within " ++ toString n ++ " rounds"))) ∧
        run.1.failure = none ∧ run.1.pages.length = n ∧ run.1.session.roundsRun = n) ∧
    (∀ calls, n ≤ calls →
      (gathering calls).1.events = .forestBuilt t.forest.size t.forest.roots :: run.1.events ∧
        (gathering calls).2 = run.2) ∧
    ∀ calls, (gathering calls).2.2 ≤ n := by
  intro start run unlimited limited gathering
  obtain ⟨items, hitems⟩ := exists_gatherPages hkey ∅
  have hgathering : ∀ calls, n ≤ calls → gathering calls = _ := fun calls hcalls =>
    run_gatherAll_upTo ht excluded hn hitems hcalls
  have hlimited : ∀ ending, run.1.ending items (.failed (.tooManyRounds n)) = ending →
      ending ≠ .unfinished → limited ending := by
    intro ending hends hne
    refine ⟨hne, n, ?_⟩
    exact (congrArg (fun r => r.1.ending) (hgathering n (Nat.le_refl n))).trans hends
  have hunlimited : ∀ ending, run.1.ending items .unfinished = ending → ending ≠ .unfinished →
      unlimited ending := by
    intro ending hends hne
    refine ⟨hne, n, ?_⟩
    rw [run_gatherAll ht, run_gather_eq hitems]
    exact hends
  refine ⟨fun k hk h => ⟨items, ?_⟩, fun j hj e h => ?_, fun hfin hfail => ?_,
    fun calls hcalls => ?_, fun calls => ?_⟩
  · have hrun : run = (start.drain (counting fetch) k).run (state, 0) :=
      Session.run_drain_eq hk (.inr h.finished)
    have hends : ∀ rest, run.1.ending items rest = .complete items := fun rest => by
      simp [Drain.ending, hrun, h.failure, h.finished]
    exact ⟨hunlimited _ (hends _) (by simp), hlimited _ (hends _) (by simp)⟩
  · have hrun : run = (start.drain (counting fetch) (j + 1)).run (state, 0) :=
      Session.run_drain_eq hj (.inl (by simp [h.failure]))
    have hends : ∀ rest, run.1.ending items rest = .failed e := fun rest => by
      simp [Drain.ending, hrun, h.failure]
    exact ⟨hunlimited _ (hends _) (by simp), hlimited _ (hends _) (by simp)⟩
  · -- of the three ways in which `n` calls can go only one is left
    rcases start.run_drain_cases (counting fetch) (state, 0) n with
      ⟨k, hk, h⟩ | ⟨j, hj, e, h⟩ | ⟨hnone, hgo, hlen⟩
    · exact absurd h (hfin k hk)
    · exact absurd h (hfail j hj e)
    · have hends : run.1.ending items (.failed (.tooManyRounds n)) =
          .failed (.tooManyRounds n) := by
        simp [Drain.ending, run, hnone, hgo]
      have hrounds : run.1.session.roundsRun = start.roundsRun + run.1.pages.length :=
        start.roundsRun_drain (counting fetch) (state, 0) n
      rw [hlen] at hrounds
      exact ⟨hlimited _ hends (by simp), hnone, hlen, hrounds.trans (Nat.zero_add n)⟩
  · rw [hgathering calls hcalls]
    exact ⟨rfl, rfl⟩
  · exact Nat.le_trans (run_gatherAll_asked_le ht excluded hn calls) (Nat.le_of_eq (Nat.zero_add n))

/-- Going through all pages of `twoLevels` in three rounds. -/
theorem finishesAfter_twoAndThree :
    (Session.start twoLevels ∅).FinishesAfter (counting twoAndThree.fetch) ((), 0) 3 :=
  ⟨by decide +kernel, by decide +kernel, by decide +kernel⟩

/-- Three rounds are enough for `twoLevels` with two and three pages, and two are not. -/
theorem limit_cuts_off_twoLevels :
    (∃ items, Gathers twoLevels.shape ∅ (counting twoAndThree.fetch)
        (some Identity.constant.key) (some 3) ((), 0) (.complete items)) ∧
      Gathers twoLevels.shape ∅ (counting twoAndThree.fetch) (some Identity.constant.key) (some 2)
        ((), 0) (.failed (.query "Pagination did not finish within 2 rounds")) := by
  have hkey : ∀ n, ∀ page ∈ (((Session.start twoLevels ∅).drain (counting twoAndThree.fetch) n).run
      ((), 0)).1.pages, KeysItems (some Identity.constant.key) page.items := by
    intro n page _ k hk e _ v _
    cases hk
    exact ⟨_, rfl⟩
  constructor
  · obtain ⟨hfinishes, -⟩ := limit_cuts_off ofShape_twoLevels ∅ twoAndThree.fetch ()
      (some Identity.constant.key) (show 1 ≤ 3 by decide) (hkey 3)
    obtain ⟨items, -, hlimited⟩ := hfinishes 3 (Nat.le_refl 3) finishesAfter_twoAndThree
    exact ⟨items, hlimited⟩
  · obtain ⟨-, -, hcut, -⟩ := limit_cuts_off ofShape_twoLevels ∅ twoAndThree.fetch ()
      (some Identity.constant.key) (show 1 ≤ 2 by decide) (hkey 2)
    refine (hcut (fun k hk h => ?_) fun j hj e h => ?_).1
    · have hgoes : (((Session.start twoLevels ∅).drain (counting twoAndThree.fetch) 2).run
          ((), 0)).1.session.isFinished = false := by decide +kernel
      rw [Session.run_drain_eq hk (.inr h.finished), h.finished] at hgoes
      cases hgoes
    · have hnone : (((Session.start twoLevels ∅).drain (counting twoAndThree.fetch) 2).run
          ((), 0)).1.failure = none := by decide +kernel
      rw [Session.run_drain_eq hj (.inl (by simp [h.failure])), h.failure] at hnone
      cases hnone

end ForestPager
