import ForestPager.Proofs.Turns

/-!
# What a call comes to

A call of a session is refused, ends the run without a request, or makes a request. The
request fails, or is answered with items that cannot be gone through, or makes a page. Each
of the five is said once with all that it comes to: the outcome of the request, the result,
the session afterwards and what is reported.

Results:

* `Session.opening_eq_closing_iff`: a run is ended by a session that goes on and has no leaf.
* `Session.step_turn`: every call is one of the five.
-/

namespace ForestPager.Session

variable {s : Session} {answer : Request → Outcome} {o : Option Outcome} {u : Turn}

/-- Nothing is finished, but no leaf is left to advance. -/
def NoLeafLeft (s : Session) : Prop :=
  s.state = .active ∧ s.round.leaves s.traversal.forest s.traversal.within = []

/-- A run is ended without a request exactly when no leaf is left. -/
theorem opening_eq_closing_iff :
    s.traversal.opening s.round = .closing ↔ s.NoLeafLeft := by
  constructor
  · intro h
    obtain ⟨hn, hf, hl⟩ := Traversal.opening_eq_closing h
    exact ⟨(Round.state_eq_active_iff _).2 ⟨hn, hf⟩, hl⟩
  · rintro ⟨ha, hl⟩
    obtain ⟨hn, hf⟩ := (Round.state_eq_active_iff _).1 ha
    exact Traversal.opening_of_no_leaves hn hf hl

/-- What a call comes to, given the outcome of its request if it makes one. A finished session
refuses, and a run without a leaf is ended. A failure to answer is passed on, and reported unless
it is a cancellation; the failure of items that cannot be gone through is passed on as well. Any
other reply makes a page. -/
inductive Step (s : Session) : Option Outcome → Turn → Prop
  | refused (hf : s.isFinished = true) :
    s.Step none ⟨none, .error Failure.sessionOver, s, []⟩
  | ended (h : s.NoLeafLeft) :
    s.Step none ⟨none, .ok { finished := true, index := s.roundsRun }, s.ended,
      [.runFinished (s.roundsRun + 1) (sortIds s.round.cursors.keys)]⟩
  | failed {leaves : List QueryId} {q : Request} {e : Failure}
    (hq : s.traversal.opening s.round = .asking leaves q) :
    s.Step (some (.error e)) ⟨some q, .error e, s,
      .roundPlanned s.roundsRun leaves q.ids q.cursors.keys ::
        if e.isOrdinary then [.roundFailed s.roundsRun e] else []⟩
  | unlistable {leaves : List QueryId} {q : Request} {reply : Reply} {e : Failure}
    (hq : s.traversal.opening s.round = .asking leaves q) (hi : reply.listItems = .error e) :
    s.Step (some (.ok reply)) ⟨some q, .error e, s,
      .roundPlanned s.roundsRun leaves q.ids q.cursors.keys :: s.traversal.dropped reply⟩
  | answered {leaves : List QueryId} {q : Request} {reply : Reply} {items : Items}
    (hq : s.traversal.opening s.round = .asking leaves q) (hi : reply.listItems = .ok items) :
    s.Step (some (.ok reply)) ⟨some q, .ok (s.pageOf leaves reply items), s.proceed reply,
      .roundPlanned s.roundsRun leaves q.ids q.cursors.keys :: (s.traversal.dropped reply ++
        [.roundCompleted s.roundsRun items.total (s.nextRound reply).cursors.size] ++
        if (s.nextRound reply).finished then [.runFinished (s.roundsRun + 1) []] else [])⟩

/-- Every call is one of these. -/
theorem step_turn (s : Session) (answer : Request → Outcome) :
    s.Step (s.request?.map answer) (s.turn answer) := by
  cases ho : s.traversal.opening s.round with
  | refused =>
    have hf : s.isFinished = true := (isFinished_iff_refused s).2 ho
    have hturn : s.turn answer = ⟨none, .error Failure.sessionOver, s, []⟩ := by
      simp [turn, request?_of_finished hf, nextPage_of_finished _ hf]
    rw [hturn, request?_of_finished hf]
    exact .refused hf
  | closing =>
    have hf : s.isFinished = false := s.isFinished_eq_false_iff.2 (by simp [ho])
    have hturn : s.turn answer =
        ⟨none, .ok { finished := true, index := s.roundsRun }, s.ended,
          [.runFinished (s.roundsRun + 1) (sortIds s.round.cursors.keys)]⟩ := by
      simp [turn, request?, nextPage, Traversal.runRound, ho, hf, commit, Traversal.close,
        Session.ended]
    have hreq : s.request? = none := by rw [request?, ho]
    rw [hturn, hreq]
    exact .ended (opening_eq_closing_iff.1 ho)
  | asking leaves q =>
    rw [turn_of_asking ho, request?_of_asking ho, Option.map_some]
    cases ha : answer q with
    | error e => exact .failed ho
    | ok reply =>
      cases hi : reply.listItems with
      | error e =>
        simp only [Traversal.settle, hi, commit]
        exact .unlistable ho hi
      | ok items =>
        simp only [Traversal.settle, hi, commit]
        exact .answered ho hi

end ForestPager.Session
