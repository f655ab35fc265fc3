import ForestPager.Proofs.Bookkeeping
import ForestPager.Proofs.Driving

/-!
# Gathering is going through the pages

Gathering the items of a query makes the same calls as going through its pages, and keeps of
each page what is new on it. So how gathering ends, what is reported and what becomes of the
service is known once the pages are known; and a limit on the rounds is a limit on the pages.

Results:

* `Session.run_drain_eq`: once a run is over, more calls change nothing.
* `Session.run_drain_cases`: a run finishes, or fails, or makes as many pages as it may.
* `run_gather_eq`: gathering, by the pages.
* `run_gather_upTo`: gathering with a limit, by as many pages.
* `Gathers.unique`: gathering all items comes to one ending at most.
-/

namespace ForestPager

variable {σ : Type} {fetch : Request → StateM σ Outcome} {s : Session} {st : σ} {n : ℕ}

/-! ## Going through the pages -/

namespace Session

/-- The session is finished after exactly `k` pages, and no call fails. -/
structure FinishesAfter (fetch : Request → StateM σ Outcome) (s : Session) (st : σ) (k : ℕ) :
    Prop where
  failure : ((s.drain fetch k).run st).1.failure = none
  pages : ((s.drain fetch k).run st).1.pages.length = k
  finished : ((s.drain fetch k).run st).1.session.isFinished = true

/-- A call fails after exactly `j` pages, and none before it. -/
structure FailsAfter (fetch : Request → StateM σ Outcome) (s : Session) (st : σ) (j : ℕ)
    (e : Failure) : Prop where
  failure : ((s.drain fetch (j + 1)).run st).1.failure = some e
  pages : ((s.drain fetch (j + 1)).run st).1.pages.length = j

theorem finishesAfter_zero (hf : s.isFinished = true) : s.FinishesAfter fetch st 0 :=
  ⟨rfl, rfl, hf⟩

theorem failsAfter_zero (hf : s.isFinished = false) {call : Call} {st' : σ} {e : Failure}
    (hcall : (s.nextPage fetch).run st = (call, st')) (he : call.result = .error e) :
    s.FailsAfter fetch st 0 e := by
  have hrun : (s.drain fetch 1).run st = (⟨[], some e, call.session, call.events⟩, st') := by
    rw [run_drain_call hf hcall, he]
  constructor <;> rw [hrun]
  rfl

section Succ

variable {call : Call} {st' : σ} {page : Page}

theorem FinishesAfter.succ {k : ℕ} (hf : s.isFinished = false)
    (hcall : (s.nextPage fetch).run st = (call, st')) (hpage : call.result = .ok page)
    (h : call.session.FinishesAfter fetch st' k) : s.FinishesAfter fetch st (k + 1) := by
  constructor <;> rw [run_drain_call hf hcall, hpage]
  · exact h.failure
  · exact congrArg (· + 1) h.pages
  · exact h.finished

theorem FailsAfter.succ {j : ℕ} {e : Failure} (hf : s.isFinished = false)
    (hcall : (s.nextPage fetch).run st = (call, st')) (hpage : call.result = .ok page)
    (h : call.session.FailsAfter fetch st' j e) : s.FailsAfter fetch st (j + 1) e := by
  constructor <;> rw [run_drain_call hf hcall, hpage]
  · exact h.failure
  · exact congrArg (· + 1) h.pages

end Succ

/-- A run finishes, or fails, or makes as many pages as it may and goes on. -/
theorem run_drain_cases (fetch : Request → StateM σ Outcome) (s : Session) (st : σ) (n : ℕ) :
    (∃ k ≤ n, s.FinishesAfter fetch st k) ∨ (∃ j < n, ∃ e, s.FailsAfter fetch st j e) ∨
      ((s.drain fetch n).run st).1.failure = none ∧
        ((s.drain fetch n).run st).1.session.isFinished = false ∧
        ((s.drain fetch n).run st).1.pages.length = n := by
  induction n generalizing s st with
  | zero =>
    cases hf : s.isFinished with
    | true => exact .inl ⟨0, Nat.le_refl 0, finishesAfter_zero hf⟩
    | false => exact .inr (.inr ⟨rfl, hf, rfl⟩)
  | succ n ih =>
    cases hf : s.isFinished with
    | true => exact .inl ⟨0, Nat.zero_le _, finishesAfter_zero hf⟩
    | false =>
      obtain ⟨answer, st', hcall⟩ := exists_run_nextPage fetch s st
      cases hres : (s.turn answer).call.result with
      | error e => exact .inr (.inl ⟨0, Nat.succ_pos n, e, failsAfter_zero hf hcall hres⟩)
      | ok page =>
        rcases ih (s.turn answer).call.session st' with
          ⟨k, hk, h⟩ | ⟨j, hj, e, h⟩ | ⟨hfail, hgo, hlen⟩
        · exact .inl ⟨k + 1, Nat.succ_le_succ hk, h.succ hf hcall hres⟩
        · exact .inr (.inl ⟨j + 1, Nat.succ_lt_succ hj, e, h.succ hf hcall hres⟩)
        · refine .inr (.inr ?_)
          rw [run_drain_call hf hcall, hres]
          exact ⟨hfail, hgo, congrArg (· + 1) hlen⟩

/-- Once a run is over, more calls change nothing. -/
theorem run_drain_eq {k : ℕ} (hkn : k ≤ n)
    (h : ((s.drain fetch k).run st).1.failure ≠ none ∨
      ((s.drain fetch k).run st).1.session.isFinished = true) :
    (s.drain fetch n).run st = (s.drain fetch k).run st := by
  induction k generalizing s st n with
  | zero =>
    have hf : s.isFinished = true := h.resolve_left fun hne => hne rfl
    rw [run_drain_of_finished hf, run_drain_of_finished hf]
  | succ k ih =>
    obtain ⟨n, rfl⟩ := Nat.exists_eq_add_of_le' (Nat.le_of_add_left_le hkn)
    cases hf : s.isFinished with
    | true => rw [run_drain_of_finished hf, run_drain_of_finished hf]
    | false =>
      obtain ⟨answer, st', hcall⟩ := exists_run_nextPage fetch s st
      rw [run_drain_call hf hcall] at h
      rw [run_drain_call hf hcall, run_drain_call hf hcall]
      cases hres : (s.turn answer).call.result with
      | error e => rfl
      | ok page =>
        rw [hres] at h
        rw [ih (Nat.le_of_succ_le_succ hkn) h]

/-- The rounds run are the pages made. -/
theorem roundsRun_drain (fetch : Request → StateM σ Outcome) (s : Session) (st : σ) (n : ℕ) :
    ((s.drain fetch n).run st).1.session.roundsRun =
      s.roundsRun + ((s.drain fetch n).run st).1.pages.length := by
  induction n generalizing s st with
  | zero => rfl
  | succ n ih =>
    cases hf : s.isFinished with
    | true =>
      rw [run_drain_of_finished hf]
      rfl
    | false =>
      obtain ⟨answer, st', hcall⟩ := exists_run_nextPage fetch s st
      have hrounds := s.roundsRun_turn answer
      rw [run_drain_call hf hcall]
      cases hres : (s.turn answer).call.result with
      | error e =>
        rw [Turn.madePage_of_error hres] at hrounds
        exact hrounds
      | ok page =>
        rw [Turn.madePage_of_ok hres] at hrounds
        simp only [ih, hrounds, List.length_cons, if_true]
        omega

end Session

/-! ## Gathering the items of the pages -/

variable {κ : Type} [DecidableEq κ] {key : Option (Json → Except Failure κ)} {met : KeysMet κ}
  {items : Items}

/-- What is gathered from pages, one after the other. -/
def gatherPages (key : Option (Json → Except Failure κ)) (met : KeysMet κ) :
    List Page → Except Failure Items
  | [] => .ok ∅
  | page :: rest =>
    match gatherPage key met page.items with
    | .error e => .error e
    | .ok (met, items) => (gatherPages key met rest).map (items.append ·)

theorem gatherPages_cons {page : Page} {pages : List Page} {met' : KeysMet κ} {rest : Items}
    (hpage : gatherPage key met page.items = .ok (met', items))
    (hrest : gatherPages key met' pages = .ok rest) :
    gatherPages key met (page :: pages) = .ok (items.append rest) := by
  simp only [gatherPages, hpage, hrest, Except.map]

/-- What is gathered from pages is what is gathered from the first one and from the others. -/
theorem exists_of_gatherPages_cons {page : Page} {pages : List Page}
    (h : gatherPages key met (page :: pages) = .ok items) :
    ∃ met' first rest, gatherPage key met page.items = .ok (met', first) ∧
      gatherPages key met' pages = .ok rest ∧ items = first.append rest := by
  cases hpage : gatherPage key met page.items with
  | error e =>
    simp only [gatherPages, hpage] at h
    cases h
  | ok kept =>
    simp only [gatherPages, hpage] at h
    cases hrest : gatherPages key kept.1 pages with
    | error e =>
      rw [hrest] at h
      cases h
    | ok rest =>
      rw [hrest] at h
      cases h
      exact ⟨kept.1, kept.2, rest, rfl, hrest, rfl⟩

/-- Pages whose items have keys pass. -/
theorem exists_gatherPages {pages : List Page} (hk : ∀ page ∈ pages, KeysItems key page.items)
    (met : KeysMet κ) : ∃ items, gatherPages key met pages = .ok items := by
  induction pages generalizing met with
  | nil => exact ⟨_, rfl⟩
  | cons page pages ih =>
    obtain ⟨hpage, hpages⟩ := List.forall_mem_cons.1 hk
    obtain ⟨⟨met', first⟩, hfirst⟩ := exists_gatherPage hpage met
    obtain ⟨rest, hrest⟩ := ih hpages met'
    exact ⟨_, gatherPages_cons hfirst hrest⟩

/-- How gathering ends when the items of the pages that were made are known; `rest` is how it
goes on if the run is not over. -/
def Drain.ending (d : Drain) (items : Items) (rest : Ending) : Ending :=
  match d.failure with
  | some e => .failed e
  | none => if d.session.isFinished then .complete items else rest

theorem Drain.after_ending (d : Drain) (first items : Items) (rest : Ending) :
    (d.ending items rest).after first = d.ending (first.append items) (rest.after first) := by
  unfold ending
  cases d.failure with
  | some e => rfl
  | none => cases d.session.isFinished <;> rfl

/-- What gathering comes to after the pages that were made. -/
def gathered (d : Drain × σ) (items : Items) (rest : Ending) : Gathered × σ :=
  (⟨d.1.ending items rest, d.1.events⟩, d.2)

/-- From a finished session nothing is gathered. -/
theorem run_gather_of_finished (hf : s.isFinished = true) (limit : Option Int) {k : ℕ}
    (h : gatherPages key met ((s.drain fetch k).run st).1.pages = .ok items) (rest : Ending) :
    (gather fetch key limit n s met).run st = gathered ((s.drain fetch k).run st) items rest := by
  rw [Session.run_drain_of_finished hf] at h ⊢
  cases h
  rw [gather_of_finished _ _ _ _ hf, gathered]
  simp only [Drain.ending, hf, if_true]
  rfl

/-- After a page that was made, with rounds left, gathering goes on like the pages. -/
theorem run_gather_page (hf : s.isFinished = false) {call : Call} {st' : σ} {page : Page}
    (hcall : (s.nextPage fetch).run st = (call, st')) (hpage : call.result = .ok page)
    {met' : KeysMet κ} {first : Items} (hfirst : gatherPage key met page.items = .ok (met', first))
    {limit : Option Int} (hlimit : overLimit limit call.session = none) {k : ℕ} {rest : Ending}
    (hrest : (gather fetch key limit n call.session met').run st' =
      gathered ((call.session.drain fetch k).run st') items rest) :
    (gather fetch key limit (n + 1) s met).run st =
      gathered ((s.drain fetch (k + 1)).run st) (first.append items) (rest.after first) := by
  rw [run_gather_limited hf hcall, Session.run_drain_call hf hcall]
  simp only [hpage, hfirst, hlimit, hrest, gathered, Drain.after_ending]
  rfl

/-- Gathering is going through the pages. -/
theorem run_gather_eq
    (h : gatherPages key met ((s.drain fetch n).run st).1.pages = .ok items) :
    (gather fetch key none n s met).run st =
      gathered ((s.drain fetch n).run st) items .unfinished := by
  induction n generalizing s st met items with
  | zero =>
    cases hf : s.isFinished with
    | true => exact run_gather_of_finished hf none h _
    | false =>
      have hrun : (s.drain fetch 0).run st = (⟨[], none, s, []⟩, st) := rfl
      rw [gather, if_neg (by simp [hf]), hrun]
      simp only [gathered, Drain.ending, hf, Bool.false_eq_true, if_false]
      rfl
  | succ n ih =>
    cases hf : s.isFinished with
    | true => exact run_gather_of_finished hf none h _
    | false =>
      obtain ⟨answer, st', hcall⟩ := Session.exists_run_nextPage fetch s st
      cases hres : (s.turn answer).call.result with
      | error e =>
        rw [run_gather_limited hf hcall, Session.run_drain_call hf hcall, hres]
        rfl
      | ok page =>
        rw [Session.run_drain_call hf hcall, hres] at h
        obtain ⟨met', first, rest, hfirst, hrest, rfl⟩ := exists_of_gatherPages_cons h
        exact run_gather_page hf hcall hres hfirst rfl (ih hrest)

theorem overLimit_of_finished (hf : s.isFinished = true) (limit : Option Int) :
    overLimit limit s = none := by
  cases limit with
  | none => rfl
  | some n => simp [overLimit, hf]

theorem overLimit_of_lt {limit : ℕ} (h : s.roundsRun < limit) :
    overLimit (some limit) s = none := by
  have hlt : ¬ (limit : Int) ≤ s.roundsRun := by omega
  simp [overLimit, hlt]

theorem overLimit_of_le (hf : s.isFinished = false) {limit : ℕ} (h : limit ≤ s.roundsRun) :
    overLimit (some limit) s = some (.tooManyRounds limit) := by
  have hle : (limit : Int) ≤ s.roundsRun := by omega
  simp [overLimit, hf, hle]

/-- Gathering with a limit is going through as many pages as the limit leaves. -/
theorem run_gather_upTo {k limit : ℕ} (hk : 1 ≤ k) (hkn : k ≤ n) (hlimit : s.roundsRun + k = limit)
    (h : gatherPages key met ((s.drain fetch k).run st).1.pages = .ok items) :
    (gather fetch key (some limit) n s met).run st =
      gathered ((s.drain fetch k).run st) items (.failed (.tooManyRounds limit)) := by
  induction k generalizing s st n met items with
  | zero => exact absurd hk (by omega)
  | succ k ih =>
    obtain ⟨n, rfl⟩ := Nat.exists_eq_add_of_le' (Nat.le_of_add_left_le hkn)
    cases hf : s.isFinished with
    | true => exact run_gather_of_finished hf _ h _
    | false =>
      obtain ⟨answer, st', hcall⟩ := Session.exists_run_nextPage fetch s st
      have hrounds := s.roundsRun_turn answer
      cases hres : (s.turn answer).call.result with
      | error e =>
        rw [run_gather_limited hf hcall, Session.run_drain_call hf hcall, hres]
        rfl
      | ok page =>
        rw [Turn.madePage_of_ok hres, if_pos rfl] at hrounds
        rw [Session.run_drain_call hf hcall, hres] at h
        obtain ⟨met', first, rest, hfirst, hrest, rfl⟩ := exists_of_gatherPages_cons h
        cases hf' : (s.turn answer).call.session.isFinished with
        | true =>
          exact run_gather_page hf hcall hres hfirst (overLimit_of_finished hf' _)
            (run_gather_of_finished hf' _ hrest (.failed (.tooManyRounds limit)))
        | false =>
          cases k with
          | zero =>
            -- the last round allowed is used up, and the run goes on
            have hover : overLimit (some limit) (s.turn answer).call.session = _ :=
              overLimit_of_le hf' (by omega)
            have hrun : ((s.turn answer).call.session.drain fetch 0).run st' =
              (⟨[], none, (s.turn answer).call.session, []⟩, st') := rfl
            rw [run_gather_limited hf hcall, Session.run_drain_call hf hcall]
            simp only [hres, hfirst, hover, hrun, gathered, Drain.ending, hf', Bool.false_eq_true,
              if_false, List.append_nil]
          | succ k =>
            exact run_gather_page hf hcall hres hfirst (overLimit_of_lt (by omega))
              (ih (by omega) (by omega) (by omega) hrest)

/-! ## One ending -/

/-- Once gathering has come to an ending, more calls change nothing. -/
theorem run_gather_stable {limit : Option Int} {n' : ℕ} (hn : n ≤ n')
    (h : ((gather fetch key limit n s met).run st).1.ending ≠ .unfinished) :
    (gather fetch key limit n' s met).run st = (gather fetch key limit n s met).run st := by
  induction n generalizing s st met n' with
  | zero =>
    cases hf : s.isFinished with
    | true => rw [gather_of_finished _ _ _ _ hf, gather_of_finished _ _ _ _ hf]
    | false =>
      rw [gather, if_neg (by simp [hf])] at h
      exact absurd rfl h
  | succ n ih =>
    obtain ⟨n', rfl⟩ := Nat.exists_eq_add_of_le' (Nat.le_of_add_left_le hn)
    cases hf : s.isFinished with
    | true => rw [gather_of_finished _ _ _ _ hf, gather_of_finished _ _ _ _ hf]
    | false =>
      obtain ⟨answer, st', hcall⟩ := Session.exists_run_nextPage fetch s st
      rw [run_gather_limited hf hcall] at h
      rw [run_gather_limited hf hcall, run_gather_limited hf hcall]
      cases hres : (s.turn answer).call.result with
      | error e => rfl
      | ok page =>
        simp only [hres] at h ⊢
        cases hkeep : gatherPage key met page.items with
        | error e => rfl
        | ok kept =>
          simp only [hkeep] at h ⊢
          cases hover : overLimit limit (s.turn answer).call.session with
          | some e => rfl
          | none =>
            simp only [hover] at h ⊢
            rw [ih (Nat.le_of_succ_le_succ hn) fun hno => h (by rw [hno]; rfl)]

theorem run_gatherAll_stable {shape : Shape} {excluded : IdSet} {limit : Option Int} {n' : ℕ}
    (hn : n ≤ n')
    (h : ((gatherAll shape excluded fetch key limit n).run st).1.ending ≠ .unfinished) :
    (gatherAll shape excluded fetch key limit n').run st =
      (gatherAll shape excluded fetch key limit n).run st := by
  unfold gatherAll at h ⊢
  split
  · rfl
  · next hlimit =>
    rw [if_neg hlimit] at h
    cases hs : Session.ofShape shape excluded with
    | error e => rfl
    | ok started =>
      simp only [hs, StateT.run_bind] at h ⊢
      rw [run_gather_stable hn h]

/-- Gathering all items of a query comes to at most one ending. -/
theorem Gathers.unique {shape : Shape} {excluded : IdSet} {limit : Option Int}
    {ending ending' : Ending} (h : Gathers shape excluded fetch key limit st ending)
    (h' : Gathers shape excluded fetch key limit st ending') : ending = ending' := by
  obtain ⟨hne, n, rfl⟩ := h
  obtain ⟨hne', n', rfl⟩ := h'
  rcases Nat.le_total n n' with hn | hn
  · rw [run_gatherAll_stable hn hne]
  · rw [run_gatherAll_stable hn hne']

end ForestPager
