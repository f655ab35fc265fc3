import ForestPager.Http.Client
import ForestPager.Http.RetryDelay
import ForestPager.Http.Wire

/-!
# Asking a query service over HTTP

A query client posts the body of a request to the address of its project and
reads the answer. Whatever fails on the way becomes a failure of the library: a
refusal with status 429 says when to ask again, any other refusal keeps its status
and request number, and a connection that fails has neither. Nothing is tried a
second time.

Results:

* `queryPath_eq_ok_iff`: every project with a name has an address.
* `ofPostFailure_timedOut`: all kinds of timeout are reported alike.
-/

namespace ForestPager.Http

/-- The header that numbers a request (`REQUEST_ID_HEADER`). -/
def requestIdHeader : String := "X-Request-Id"

/-- The header that says when to ask again (`RETRY_AFTER_HEADER`). -/
def retryAfterHeader : String := "Retry-After"

/-- The status of a refusal for asking too often. -/
def tooManyRequests : Int := 429

/-- The address of a project's queries (`query_path`). -/
def queryPath (project : String) : Except Failure String :=
  if project = "" then .error .emptyProject
  else .ok ("/api/v1/projects/" ++ project ++ "/models/instances/query")

theorem queryPath_eq_ok_iff (project : String) :
    (∃ path, queryPath project = .ok path) ↔ project ≠ "" := by
  unfold queryPath
  split <;> simp_all

/-- The failure that `InstancesQueryClient.execute` reports a refusal as. -/
def ofRefusal (status : Int) (message : String) (headers : Headers) : Failure :=
  let requestId := header? headers requestIdHeader
  if status = tooManyRequests then
    match retryDelay (header? headers retryAfterHeader) with
    | .ok delay => .rateLimited ("Query rate limited: " ++ message) delay requestId
    | .error failure => failure
  else
    .executor ("Query failed with status " ++ toString status ++ ": " ++ message) (some status)
      requestId

/-- The failure that `InstancesQueryClient.execute` reports a failed POST as. An answer that is
not the JSON it claims to be is passed on as it is. -/
def ofPostFailure : PostFailure → Failure
  | .rejected status message headers => ofRefusal status message (headers.getD [])
  | .undecodable status message headers => ofRefusal status message (headers.getD [])
  | .malformed text => .post (.malformed text)
  | .timedOut _ => .executor "Query timed out" none none
  | .transport _ text => .executor ("Query transport error: " ++ text) none none

/-- What a POST came to, as the answer to a request. -/
def outcomeOf : PostOutcome → Outcome
  | .ok answer => Reply.ofResponse answer
  | .error (.post failure) => .error (ofPostFailure failure)
  | .error failure => .error failure

@[simp] theorem ofPostFailure_timedOut (kind : String) :
    ofPostFailure (.timedOut kind) = .executor "Query timed out" none none := rfl

/-- A client that posts to the address of one project's queries (`InstancesQueryClient`). -/
structure QueryClient where
  path : String
  client : Client
deriving DecidableEq

namespace QueryClient

/-- An `InstancesQueryClient` for a project. -/
def new (base : String) (project : String) (timeout : Json) (headers : Headers) :
    Except Failure QueryClient :=
  (queryPath project).map fun path => ⟨path, Client.new (some base) timeout headers⟩

/-- Answer a request by posting its body (`InstancesQueryClient.execute`); `send` carries the POST
out. -/
def execute {m : Type → Type} [Monad m] (send : Post → m PostOutcome) (request : Request) :
    StateT QueryClient m Outcome := fun q => do
  let (outcome, client) ← q.client.post send q.path request.body none
  pure (outcomeOf outcome, { q with client })

/-- Close the connection (`InstancesQueryClient.close`). -/
def close (q : QueryClient) : QueryClient := { q with client := q.client.close }

end QueryClient

end ForestPager.Http
