import ForestPager.Session

/-!
# Histories of sessions

A call of a session asks for at most one thing, and what it comes to depends only
on the answer. A `Turn` is such a call with what it asked for, and a history is the
list of successive turns. It is the record on which statements about whole runs are
made, and it holds for every way of fetching.

Results:

* `Session.nextPage_eq_turn`: asking for a page, in any monad, is a turn with the
  fetched answer.
* `Session.session_turn_of_error`: a turn that fails leaves the session as it was.
* `Session.history_append`: a history goes on where it stopped.
-/

namespace ForestPager

/-- One call of a session: what it asked for, if anything, and what it came to. -/
structure Turn where
  request : Option Request
  call : Call

namespace Session

/-- What the next call asks for; nothing when the session is finished or when its
last call needs no answer. -/
def request? (s : Session) : Option Request :=
  match s.traversal.opening s.round with
  | .asking _ request => some request
  | _ => none

/-- One call with a given way of answering. -/
def turn (answer : Request → Outcome) (s : Session) : Turn :=
  ⟨s.request?, Id.run (s.nextPage fun request => pure (answer request))⟩

/-- The session after calls with given ways of answering. -/
def after : Session → List (Request → Outcome) → Session
  | s, [] => s
  | s, answer :: rest => (s.turn answer).call.session.after rest

/-- Successive calls with given ways of answering. -/
def history : Session → List (Request → Outcome) → List Turn
  | _, [] => []
  | s, answer :: rest => s.turn answer :: (s.turn answer).call.session.history rest

theorem isFinished_iff_refused (s : Session) :
    s.isFinished = true ↔ s.traversal.opening s.round = .refused :=
  (s.traversal.opening_eq_refused_iff s.round).symm

theorem isFinished_eq_false_iff (s : Session) :
    s.isFinished = false ↔ s.traversal.opening s.round ≠ .refused := by
  rw [← Bool.not_eq_true, isFinished_iff_refused]

theorem request?_of_finished {s : Session} (h : s.isFinished = true) : s.request? = none := by
  rw [isFinished_iff_refused] at h
  simp [request?, h]

/-- Asking for a page, in any monad, is a turn with the fetched answer; without a
request nothing is fetched. -/
theorem nextPage_eq_turn {m : Type → Type} [Monad m] [LawfulMonad m]
    (fetch : Request → m Outcome) (s : Session) :
    s.nextPage fetch =
      match s.request? with
      | none => pure (s.turn fun _ => .error Failure.sessionOver).call
      | some request => fetch request >>= fun outcome => pure (s.turn fun _ => outcome).call := by
  unfold turn nextPage
  by_cases hf : s.isFinished = true
  · simp [request?_of_finished hf, hf]
  · have hr : s.traversal.opening s.round ≠ .refused := fun h =>
      hf ((isFinished_iff_refused s).2 h)
    cases ho : s.traversal.opening s.round with
    | refused => exact absurd ho hr
    | closing => simp [request?, ho, hf, Traversal.runRound]
    | asking leaves request => simp [request?, ho, hf, Traversal.runRound]

/-- A turn that fails leaves the session as it was. -/
theorem session_turn_of_error {answer : Request → Outcome} {s : Session} {failure : Failure}
    (h : (s.turn answer).call.result = .error failure) : (s.turn answer).call.session = s := by
  unfold turn nextPage at h ⊢
  by_cases hf : s.isFinished = true
  · simp [hf]
  · simp only [hf, Bool.false_eq_true, if_false] at h ⊢
    exact commit_error s h

theorem after_append (s : Session) (a b : List (Request → Outcome)) :
    s.after (a ++ b) = (s.after a).after b := by
  induction a generalizing s with
  | nil => rfl
  | cons answer rest ih => exact ih _

/-- A history goes on where it stopped. -/
theorem history_append (s : Session) (a b : List (Request → Outcome)) :
    s.history (a ++ b) = s.history a ++ (s.after a).history b := by
  induction a generalizing s with
  | nil => rfl
  | cons answer rest ih => simp [history, after, ih]

end Session

end ForestPager
