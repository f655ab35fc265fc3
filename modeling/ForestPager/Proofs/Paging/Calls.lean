import ForestPager.Proofs.Driving
import ForestPager.Proofs.Paging.Following

/-!
# Calls of a session that is served numbered pages

A service may have a state of its own, and is only asked to answer every request with the
next pages. The calls of a session go in step with its standing, and when the standing
stops, the session is finished at once or after a call without a request.

Results:

* `Session.Reaches.run_nextPage`: one call.
* `Session.Reaches.request_of_page`: the request behind a page.
* `Session.Reaches.induction_to_end`: induction over the calls of a run.
-/

namespace ForestPager.Session

variable {σ : Type} {fetch : Request → StateM σ Outcome} {s : Session} {g : Paging} {n : ℕ}
  {t : Traversal}

/-- A service that answers every request with the next pages, in every state. -/
def Serves (fetch : Request → StateM σ Outcome) (t : Traversal) (count : PageCount) : Prop :=
  ∀ q st, Paginates t count q ((fetch q).run st).1

namespace Reaches

theorem not_isFinished (h : s.Reaches g n) (ha : g.Asks n) : s.isFinished = false := by
  obtain ⟨leaves, q, hq, -, -⟩ := h.opening ha
  exact s.isFinished_eq_false_iff.2 (by simp [hq])

/-- One call of a session that has reached a number and asks for something. -/
theorem run_nextPage (h : s.Reaches g n) (ha : g.Asks n)
    (hfetch : Serves fetch s.traversal g.count) (st : σ) :
    ∃ call st' page, (s.nextPage fetch).run st = (call, st') ∧ call.result = .ok page ∧
      call.session.traversal = s.traversal ∧ call.session.Reaches g (n + 1) := by
  obtain ⟨leaves, q, hq, -, -⟩ := h.opening ha
  have hans : ∀ q', s.request? = some q' →
      Paginates s.traversal g.count q' ((fun _ => ((fetch q).run st).1) q') := by
    intro q' hq'
    rw [request?_of_asking hq, Option.some.injEq] at hq'
    exact hq' ▸ hfetch q st
  obtain ⟨leaves', q', reply, items, hq', -, -, hr, hi, hnext⟩ := h.step ha hans
  exact ⟨_, _, _, run_nextPage_of_asking hq, (turn_of_reply hq' hr hi).2.2,
    turn_traversal _ _, hnext⟩

/-- The request behind a page, and the reply that the page was made of. -/
theorem request_of_page (h : s.Reaches g n) (ha : g.Asks n)
    (hfetch : Serves fetch s.traversal g.count) {st st' : σ} {call : Call} {page : Page}
    (hcall : (s.nextPage fetch).run st = (call, st')) (hpage : call.result = .ok page) :
    ∃ q reply, s.request? = some q ∧ q.Fits s.traversal ∧ q.AsksFor (g.askedAt n) ∧
      ((fetch q).run st).1 = .ok reply ∧ reply.listItems = .ok page.items := by
  obtain ⟨leaves, q, hq, hfits, hasks⟩ := h.opening ha
  obtain ⟨reply, items, hr, hi, -⟩ := hfetch q st _ hfits hasks (Paging.genuine_askedAt n)
  refine ⟨q, reply, request?_of_asking hq, hfits, hasks, hr, ?_⟩
  rw [run_nextPage_of_asking hq, Prod.mk.injEq] at hcall
  have hres : (s.turn fun _ => ((fetch q).run st).1).call.result =
      .ok (s.pageOf leaves reply items) :=
    (turn_of_reply hq hr hi).2.2
  rw [← hcall.1, hres, Except.ok.injEq] at hpage
  exact hpage ▸ hi

/-- Induction over the calls of a run whose standing stops. A call makes the next request,
or it makes none and the standing has stopped. -/
theorem induction_to_end {motive : ℕ → Session → σ → Prop}
    (finished : ∀ n s st, ¬ g.Asks n → s.isFinished = true → motive n s st)
    (call : ∀ n n' s st call st' page, s.isFinished = false →
      (s.nextPage fetch).run st = (call, st') → call.result = .ok page →
      (n' = n + 1 ∧ s.Reaches g n ∧ g.Asks n ∧ s.traversal = t) ∨ (n' = n ∧ page.items = ∅) →
      motive n' call.session st' → motive n s st)
    (hfetch : Serves fetch t g.count) {N : ℕ} (hN : ¬ g.Asks N) (h : s.Reaches g n)
    (ht : s.traversal = t) (st : σ) : motive n s st := by
  have hstop : ∀ (s : Session) (n : ℕ) (st : σ), s.Reaches g n → ¬ g.Asks n → motive n s st := by
    intro s n st h hno
    rcases h.stops hno with hf | hc
    · exact finished n s st hno hf
    · have hnf : s.isFinished = false := s.isFinished_eq_false_iff.2 (by simp [hc])
      obtain ⟨-, hsess, hres⟩ := turn_of_closing (s := s) hc
      refine call n n s st _ _ _ hnf (run_nextPage_of_closing hc fun _ => .ok default) hres
        (.inr ⟨rfl, rfl⟩) ?_
      rw [hsess]
      exact finished n _ _ hno rfl
  -- the induction is on the requests before `N`, at which the standing has stopped
  induction hk : N - n generalizing s n st with
  | zero => exact hstop s n st h fun ha => hN (ha.mono (by omega))
  | succ k ih =>
    by_cases ha : g.Asks n
    · obtain ⟨c, st', page, hc, hpage, htrav, hnext⟩ := h.run_nextPage ha (ht ▸ hfetch) st
      exact call n (n + 1) s st c st' page (h.not_isFinished ha) hc hpage
        (.inl ⟨rfl, h, ha, ht⟩) (ih hnext (htrav.trans ht) st' (by omega))
    · exact hstop s n st h ha

end Reaches

end ForestPager.Session
