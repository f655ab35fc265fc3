import ForestPager.Traversal

/-!
# Sessions

A session is a traversal with its progress: the round it stands at and the number
of rounds it has run. Asking for a page runs one round; only a page that was made
moves the session on, so a call that failed or was cancelled can be repeated.

Results:

* `Session.nextPage_of_finished`: a finished session refuses and stays as it is.
* `Session.commit_error`: a call that fails leaves the session as it was.
-/

namespace ForestPager

/-- A run in progress (`PaginationSession`), at the round after the last page made. -/
structure Session where
  traversal : Traversal
  round : Round
  roundsRun : Nat := 0
deriving DecidableEq, Inhabited

/-- What asking a session for a page came to: the page or what went wrong, the session afterwards,
and what happened, in order. -/
structure Call where
  result : Except Failure Page
  session : Session
  events : List Event

/-- What going through the pages of a session came to: the pages made, in order, what went wrong
at the end, if anything did, the session afterwards, and what happened. -/
structure Drain where
  pages : List Page
  failure : Option Failure
  session : Session
  events : List Event

namespace Session

variable {m : Type → Type} [Monad m]

/-- A `PaginationSession` over a traversal, before its first page. -/
def start (t : Traversal) (excluded : IdSet) : Session := ⟨t, .initial excluded, 0⟩

/-- A session over the forest of the query's own sub-queries, and what is reported when the forest
is linked (`start_session`). -/
def ofShape (s : Shape) (excluded : IdSet) : Except Failure (Session × List Event) :=
  match Traversal.ofShape s with
  | .error defect => .error (.ofDefect defect)
  | .ok t => .ok (start t excluded, [.forestBuilt t.forest.size t.forest.roots])

/-- Whether the session has no further page (`PaginationSession.is_finished`). -/
def isFinished (s : Session) : Bool := s.round.finished

/-- The stage that the session is in (`PaginationSession.state`). -/
def state (s : Session) : RunState := s.round.state

/-- What `PaginationSession.next_page` takes over from a round. -/
def commit (s : Session) (run : RoundRun) : Call :=
  match run.result with
  | .error failure => ⟨.error failure, s, run.events⟩
  | .ok (page, next) =>
    ⟨.ok page, { s with round := next, roundsRun := s.roundsRun + 1 }, run.events⟩

/-- Run one round and return its page (`PaginationSession.next_page`). -/
def nextPage (fetch : Request → m Outcome) (s : Session) : m Call :=
  if s.isFinished then pure ⟨.error Failure.sessionOver, s, []⟩
  else do pure (s.commit (← s.traversal.runRound fetch s.round s.roundsRun))

/-- Go through the pages (`PaginationSession.pages`) until the session is finished, a call fails,
or `limit` pages have been made. -/
def drain (fetch : Request → m Outcome) : (limit : Nat) → Session → m Drain
  | 0, s => pure ⟨[], none, s, []⟩
  | n + 1, s =>
    if s.isFinished then pure ⟨[], none, s, []⟩
    else do
      let call ← s.nextPage fetch
      match call.result with
      | .error failure => pure ⟨[], some failure, call.session, call.events⟩
      | .ok page =>
        let rest ← drain fetch n call.session
        pure { rest with pages := page :: rest.pages, events := call.events ++ rest.events }

theorem nextPage_of_finished (fetch : Request → m Outcome) {s : Session}
    (h : s.isFinished = true) : s.nextPage fetch = pure ⟨.error Failure.sessionOver, s, []⟩ := by
  simp [nextPage, h]

/-- A call that fails leaves the session as it was. -/
theorem commit_error (s : Session) {run : RoundRun} {failure : Failure}
    (h : (s.commit run).result = .error failure) : (s.commit run).session = s := by
  unfold commit at h ⊢
  cases hr : run.result with
  | error e => rfl
  | ok p => simp [hr] at h

end Session

end ForestPager
