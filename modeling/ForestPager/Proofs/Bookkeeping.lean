import ForestPager.Proofs.Outstanding
import ForestPager.Proofs.Steps

/-!
# The books of a session

A session says what stage it is in, how many rounds it has run and, on each page, which
round the page is of and whether it is the last. None of this can be off by one: the rounds
are the calls that made a page, and these are the replies that could be gone through and the
call, if there was one, that found no leaf left.

Results:

* `Session.roundsRun_after`: the rounds are the pages made.
* `Session.page_of_turn`: what a page says of its round.
* `Session.roundsRun_after_fetched`: the rounds are the replies, and the end without a leaf.
* `Session.holds_earlier_after`: what the earlier cursors of a round are.
* `session_keeps_books`: all of it, at every point of a run.
-/

namespace ForestPager

/-- A round with its earlier cursors in the place of its cursors. -/
def Round.before (r : Round) : Round := { r with cursors := r.earlier }

namespace Session

variable {s : Session} {answer : Request → Outcome} {answers : List (Request → Outcome)}

/-- The outcomes of the requests that calls with given ways of answering make, in order. -/
def fetched : Session → List (Request → Outcome) → List Outcome
  | _, [] => []
  | s, answer :: rest => (s.request?.map answer).toList ++ (s.turn answer).call.session.fetched rest

/-- One of the calls finds that no leaf is left, and ends the run. -/
def EndsLeafless (s : Session) (answers : List (Request → Outcome)) : Prop :=
  ∃ pre answer post, answers = pre ++ answer :: post ∧ (s.after pre).NoLeafLeft

/-! ## Pages -/

/-- A call runs a round exactly when it makes a page. -/
theorem roundsRun_turn (s : Session) (answer : Request → Outcome) :
    (s.turn answer).call.session.roundsRun =
      s.roundsRun + if (s.turn answer).madePage then 1 else 0 := by
  have h := s.step_turn answer
  generalize s.turn answer = u at h ⊢
  generalize s.request?.map answer = o at h
  cases h <;> rfl

/-- The rounds are the pages made. -/
theorem roundsRun_after (s : Session) (answers : List (Request → Outcome)) :
    (s.after answers).roundsRun = s.roundsRun + (s.history answers).countP Turn.madePage := by
  induction answers generalizing s with
  | nil => rfl
  | cons answer rest ih =>
    rw [after, ih, roundsRun_turn, history, List.countP_cons]
    omega

/-- A page has the number of its round, and says that it is the last one exactly when the
session is finished after it. -/
theorem page_of_turn {page : Page} (h : (s.turn answer).call.result = .ok page) :
    page.index = s.roundsRun ∧ page.finished = (s.turn answer).call.session.isFinished := by
  have hstep := s.step_turn answer
  generalize s.turn answer = u at h hstep ⊢
  generalize s.request?.map answer = o at hstep
  cases hstep with
  | refused | failed | unlistable => cases h
  | ended | answered => cases h; exact ⟨rfl, rfl⟩

/-- A session that has run no round is new, and no other session is. -/
theorem isNew_after_iff (t : Traversal) (excluded : IdSet) (answers : List (Request → Outcome)) :
    ((start t excluded).after answers).round.isNew = true ↔
      ((start t excluded).after answers).roundsRun = 0 := by
  refine after_induction (P := fun s => s.round.isNew = true ↔ s.roundsRun = 0) ?_ (by simp [start,
    Round.initial]) answers
  intro s answer hs
  have h := s.step_turn answer
  generalize s.turn answer = u at h ⊢
  generalize s.request?.map answer = o at h
  cases h with
  | refused | failed | unlistable => exact hs
  | ended => exact iff_of_false Bool.false_ne_true (Nat.succ_ne_zero _)
  | answered => exact iff_of_false Bool.false_ne_true (Nat.succ_ne_zero _)

/-- What a round holds of earlier cursors is for ids of the query, too, and not empty. -/
theorem holds_earlier_after (t : Traversal) (excluded : IdSet)
    (answers : List (Request → Outcome)) :
    ((start t excluded).after answers).round.before.Holds t.within := by
  -- the cursors of one round are the earlier ones of the next
  let P (s : Session) : Prop :=
    s.traversal = t ∧ s.round.Holds t.within ∧ s.round.before.Holds t.within
  have hrun : P ((start t excluded).after answers) := by
    refine after_induction (P := P) ?_ ⟨rfl, Round.holds_of_cursors_eq_empty rfl _,
      Round.holds_of_cursors_eq_empty rfl _⟩ answers
    rintro s answer ⟨rfl, hcursors, hearlier⟩
    refine ⟨s.turn_traversal answer, ?_⟩
    rcases session_turn_cases s answer with h | h | ⟨reply, h⟩ <;> rw [h]
    · exact ⟨hcursors, hearlier⟩
    · exact ⟨Round.holds_of_cursors_eq_empty rfl _, Round.holds_of_cursors_eq_empty rfl _⟩
    · exact ⟨s.round.holds_advance _ _, hcursors⟩
  exact hrun.2.2

/-! ## Replies -/

theorem not_noLeafLeft_of_finished (hf : s.isFinished = true) : ¬ s.NoLeafLeft := by
  intro h
  rw [isFinished_iff_refused, opening_eq_closing_iff.2 h] at hf
  cases hf

theorem not_noLeafLeft_of_asking {leaves : List QueryId} {q : Request}
    (hq : s.traversal.opening s.round = .asking leaves q) : ¬ s.NoLeafLeft := by
  intro h
  rw [opening_eq_closing_iff.2 h] at hq
  cases hq

theorem endsLeafless_cons {rest : List (Request → Outcome)} :
    s.EndsLeafless (answer :: rest) ↔
      s.NoLeafLeft ∨ (s.turn answer).call.session.EndsLeafless rest := by
  constructor
  · rintro ⟨pre, a, post, h, hno⟩
    rcases List.cons_eq_append_iff.1 h with ⟨rfl, -⟩ | ⟨pre', rfl, rfl⟩
    · exact .inl hno
    · exact .inr ⟨pre', a, post, rfl, hno⟩
  · rintro (h | ⟨pre, a, post, rfl, hno⟩)
    · exact ⟨[], answer, rest, rfl, h⟩
    · exact ⟨answer :: pre, a, post, rfl, hno⟩

theorem fetched_of_finished (hf : s.isFinished = true) : s.fetched answers = [] := by
  induction answers with
  | nil => rfl
  | cons answer rest ih =>
    rw [fetched, request?_of_finished hf, call_turn_of_finished hf, ih]
    rfl

/-- The rounds are the replies whose items can be gone through, and one more if the run was
ended because no leaf was left. -/
theorem roundsRun_after_fetched (s : Session) (answers : List (Request → Outcome)) :
    (s.EndsLeafless answers ∧
        (s.after answers).roundsRun =
          s.roundsRun + (s.fetched answers).countP Outcome.succeeds + 1) ∨
      (¬ s.EndsLeafless answers ∧
        (s.after answers).roundsRun =
          s.roundsRun + (s.fetched answers).countP Outcome.succeeds) := by
  induction answers generalizing s with
  | nil => exact .inr ⟨by rintro ⟨pre, a, post, h, -⟩; simp at h, rfl⟩
  | cons answer rest ih =>
    rw [endsLeafless_cons, fetched, after, List.countP_append]
    have h := s.step_turn answer
    generalize s.turn answer = u at h ⊢
    generalize s.request?.map answer = o at h ⊢
    cases h with
    | refused hf =>
      simpa [not_noLeafLeft_of_finished hf] using ih s
    | ended hno =>
      have hf : s.ended.isFinished = true := rfl
      refine .inl ⟨.inl hno, ?_⟩
      rw [after_of_finished hf, fetched_of_finished hf]
      rfl
    | failed hq =>
      simpa [not_noLeafLeft_of_asking hq] using ih s
    | unlistable hq hi =>
      simpa [not_noLeafLeft_of_asking hq, Outcome.succeeds_of_unlistable hi] using ih s
    | @answered _ _ reply _ hq hi =>
      have hone : (some (Except.ok reply) : Option Outcome).toList.countP Outcome.succeeds = 1 := by
        simp [Outcome.succeeds_of_listed hi]
      have hmore : (s.proceed reply).roundsRun = s.roundsRun + 1 := rfl
      have hrest := ih (s.proceed reply)
      rw [hmore] at hrest
      rw [hone]
      dsimp only
      rcases hrest with ⟨hend, hcount⟩ | ⟨hend, hcount⟩
      · exact .inl ⟨.inr hend, by omega⟩
      · exact .inr ⟨fun h => h.elim (not_noLeafLeft_of_asking hq) hend, by omega⟩

end Session

/-- A session keeps its books. After any calls, with any outcomes, the session is new exactly
if it has run no round; what it excludes is what it started with; its cursors and earlier
cursors are for ids of the query, and none is empty. The page that comes after `k` others has
the number `k`, and is marked as the last one exactly if the session is finished after it. A
finished session refuses every call without a request and stays as it is. The replies whose
items could be gone through are as many as the rounds; or one less, which is so exactly if
one of the calls found no leaf left. -/
theorem session_keeps_books {shape : Shape} {t : Traversal} (ht : Traversal.ofShape shape = .ok t)
    (excluded : IdSet) (answers : List (Request → Outcome)) :
    let start := Session.start t excluded
    let s := start.after answers
    (s.state = .new ↔ s.roundsRun = 0) ∧
    s.round.excluded = excluded ∧
    (∀ x v, s.round.cursors.get? x = some v ∨ s.round.earlier.get? x = some v →
      x ∈ shape.ids ∧ v ≠ none) ∧
    (∀ us u vs page, start.history answers = us ++ u :: vs → u.call.result = .ok page →
      page.index = us.countP Turn.madePage ∧
        (page.finished = true ↔ u.call.session.isFinished = true)) ∧
    (s.isFinished = true →
      (∀ (m : Type → Type) [Monad m] (fetch : Request → m Outcome),
        s.nextPage fetch =
          pure ⟨.error (.finished "Attempted to fetch a page from a finished session"), s, []⟩) ∧
      ∀ more, s.after more = s ∧ s.fetched more = []) ∧
    ((start.EndsLeafless answers ∧
        (start.fetched answers).countP Outcome.succeeds + 1 = s.roundsRun) ∨
      (¬ start.EndsLeafless answers ∧
        (start.fetched answers).countP Outcome.succeeds = s.roundsRun)) := by
  obtain ⟨hown, rfl⟩ := Traversal.own_of_ofShape ht
  intro start s
  have hzero : start.roundsRun = 0 := rfl
  refine ⟨?_, Session.after_excluded start answers, ?_, ?_, ?_, ?_⟩
  · exact (Round.state_eq_new_iff _).trans (Session.isNew_after_iff t excluded answers)
  · intro x v hv
    have hheld : t.within x = true ∧ ∃ c, v = some c :=
      hv.elim (Session.holds_after t excluded answers x v)
        (Session.holds_earlier_after t excluded answers x v)
    obtain ⟨hx, c, rfl⟩ := hheld
    exact ⟨(t.shape.queries.contains_iff x).1 hx, Option.some_ne_none c⟩
  · intro us u vs page h hpage
    obtain ⟨pre, answer, post, -, rfl, rfl, -⟩ := Session.history_eq_append_cons h
    obtain ⟨hindex, hfinished⟩ := Session.page_of_turn hpage
    rw [hindex, hfinished, Session.roundsRun_after, hzero, Nat.zero_add]
    exact ⟨rfl, Iff.rfl⟩
  · intro hf
    exact ⟨fun m _ fetch => Session.nextPage_of_finished fetch hf,
      fun more => ⟨Session.after_of_finished hf more, Session.fetched_of_finished hf⟩⟩
  · rcases start.roundsRun_after_fetched answers with ⟨hend, hcount⟩ | ⟨hend, hcount⟩
    · rw [hzero, Nat.zero_add] at hcount
      exact .inl ⟨hend, hcount.symm⟩
    · rw [hzero, Nat.zero_add] at hcount
      exact .inr ⟨hend, hcount.symm⟩

/-- Four calls of a session over `twoLevels`: two replies with a failure between them, of which
the second one has a cursor for the upper sub-query only, and a call that is not answered. -/
def upperStaysBehind : List (Request → Outcome) :=
  [fun _ => .ok { nextCursors := .ofList [("A", some (.ofText "1")), ("B", some (.ofText "1"))] },
    fun _ => .error (.foreign "ConnectionError" ""),
    fun _ => .ok { nextCursors := .ofList [("A", some (.ofText "1"))] },
    fun _ => .error (.foreign "ConnectionError" "")]

/-- With the upper sub-query excluded, the last of these calls finds no leaf: there are three
rounds and two replies. -/
theorem session_keeps_books_twoLevels :
    let start := Session.start twoLevels (.ofList ["A"])
    (start.after upperStaysBehind).isFinished = true ∧
      (start.after upperStaysBehind).roundsRun = 3 ∧
      start.EndsLeafless upperStaysBehind ∧
      (start.fetched upperStaysBehind).countP Outcome.succeeds + 1 =
        (start.after upperStaysBehind).roundsRun := by
  intro start
  have hrounds : (start.after upperStaysBehind).roundsRun = 3 := by decide +kernel
  have hreplies : (start.fetched upperStaysBehind).countP Outcome.succeeds = 2 := by decide +kernel
  obtain ⟨-, -, -, -, -, hbooks⟩ :=
    session_keeps_books ofShape_twoLevels (.ofList ["A"]) upperStaysBehind
  refine ⟨by decide +kernel, hrounds, hbooks.resolve_right fun h => ?_⟩
  have hsame : 2 = 3 := hreplies.symm.trans (h.2.trans hrounds)
  exact absurd hsame (by decide)

end ForestPager
