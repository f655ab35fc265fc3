import ForestPager.Http.Client

/-!
# POSTs and their outcomes as JSON

A transport in another process is told of a POST, and says what it came to, in one
JSON object each. An outcome is told by the field it has: `json` for an answer,
`status` or `content_type` for a refusal with its message and headers, `bad_json`
with a text, `timeout`, or `transport` for a connection that failed. Some failures
of a connection are timeouts as well.

Results:

* `outcomeOfJson?_answer`: an answer is passed on as it is.
-/

namespace ForestPager.Http

/-- A text in a field; left out or of another type, it is empty. -/
def textField (name : String) (fields : Json.Fields) : String :=
  match Json.field? name fields with
  | some (.str s) => s
  | _ => ""

/-- Headers as a list of pairs; left out or null, there are none. -/
def headersField (fields : Json.Fields) : Option Headers :=
  match Json.field? "headers" fields with
  | some (.arr pairs) => some (pairs.filterMap fun p => match p with
    | .arr [.str name, .str value] => some (name, value)
    | _ => none)
  | _ => none

/-- The failures of a connection that are timeouts. -/
def timeoutKinds : List String :=
  ["TimeoutError", "ServerTimeoutError", "ConnectionTimeoutError", "SocketTimeoutError"]

/-- Read what a POST came to. -/
def outcomeOfJson? : Json → Option PostOutcome
  | .obj fields =>
    match Json.field? "json" fields, Json.field? "status" fields,
      Json.field? "content_type" fields, Json.field? "bad_json" fields,
      Json.field? "timeout" fields, Json.field? "transport" fields with
    | some answer, _, _, _, _, _ => some (.ok answer)
    | _, some (.int status), _, _, _, _ =>
      some (.error (.post (.rejected status (textField "message" fields) (headersField fields))))
    | _, _, some (.int status), _, _, _ =>
      some (.error (.post (.undecodable status (textField "message" fields)
        (headersField fields))))
    | _, _, _, some _, _, _ => some (.error (.post (.malformed (textField "bad_json" fields))))
    | _, _, _, _, some (.str kind), _ => some (.error (.post (.timedOut kind)))
    | _, _, _, _, _, some (.str kind) =>
      some (.error (.post (if kind ∈ timeoutKinds then .timedOut kind
        else .transport kind (textField "message" fields))))
    | _, _, _, _, _, _ => none
  | _ => none

/-- Write a POST. -/
def Post.toJson (p : Post) : Json :=
  .obj [("connection", .int p.connection), ("url", .str p.url),
    ("headers", match p.headers with
      | some headers => .obj (headers.map fun h => (h.1, .str h.2))
      | none => .null),
    ("json", p.body)]

theorem outcomeOfJson?_answer (answer : Json) :
    outcomeOfJson? (.obj [("json", answer)]) = some (.ok answer) := by
  simp [outcomeOfJson?, Json.field?]

end ForestPager.Http
