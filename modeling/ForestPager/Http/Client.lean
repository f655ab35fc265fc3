import ForestPager.Failure

/-!
# Posting clients

A client knows a base address and what every connection is opened with. It opens
a connection when one is needed and none is open, and goes on using it until the
client is closed; after that the next need opens a new one. All connections ever
opened are listed, the one in use last.

Results:

* `Client.connect_open`: an open connection is used again.
* `Client.url_of_absolute`: an address that starts with `http` is used as it is.
-/

namespace ForestPager.Http

/-- A connection to a service, with the seconds that an answer may take, as they were given, and
the headers sent with everything. -/
structure Connection where
  timeout : Json
  headers : Headers
  closed : Bool := false
deriving DecidableEq

/-- What a POST comes to: the decoded answer or a failure. -/
abbrev PostOutcome := Except Failure Json

/-- A client of one service (`HTTPClient`). Of the connections opened so far the last one is in
use. -/
structure Client where
  base : Option String
  timeout : Json
  headers : Headers
  connections : List Connection := []
deriving DecidableEq

namespace Client

/-- The seconds that an answer may take unless said otherwise (`DEFAULT_TIMEOUT`). -/
def usualTimeout : Json := .float (.ofDecimal ⟨false, 30, 0⟩)

/-- A text without the slashes at its end. -/
def trimSlashes (s : String) : String :=
  String.ofList (s.toList.reverse.dropWhile (· == '/')).reverse

/-- An `HTTPClient` that has not opened a connection. -/
def new (base : Option String) (timeout : Json) (headers : Headers) : Client where
  base := (base.filter fun b => b != "").map trimSlashes
  timeout := timeout
  headers := headers

/-- The address that an address stands for (`HTTPClient._url`): relative to the base if there is
one, unless it starts with `http`. -/
def url (c : Client) (address : String) : String :=
  if "http".toList.isPrefixOf address.toList then address else c.base.getD "" ++ address

/-- The number of the open connection, opened now if there is none (`HTTPClient.session`). -/
def connect (c : Client) : Nat × Client :=
  match c.connections.getLast? with
  | some ⟨_, _, false⟩ => (c.connections.length - 1, c)
  | _ =>
    (c.connections.length,
      { c with connections := c.connections ++ [⟨c.timeout, c.headers, false⟩] })

/-- Close the open connection, if there is one (`HTTPClient.close`). -/
def close (c : Client) : Client :=
  { c with connections := c.connections.dropLast ++
      (c.connections.getLast?.map fun k => { k with closed := true }).toList }

/-- Post a body to an address (`HTTPClient.post`); `send` carries the POST out. -/
def post {m : Type → Type} [Monad m] (send : Post → m PostOutcome) (c : Client)
    (address : String) (body : Json) (headers : Option Headers) : m (PostOutcome × Client) := do
  let (connection, c) := c.connect
  let outcome ← send ⟨connection, c.url address, headers, body⟩
  pure (outcome, c)

/-- An open connection is used again. -/
theorem connect_open {c : Client} {k : Connection} (h : c.connections.getLast? = some k)
    (hk : k.closed = false) : c.connect = (c.connections.length - 1, c) := by
  obtain ⟨timeout, headers, closed⟩ := k
  subst hk
  simp [connect, h]

theorem url_of_absolute (c : Client) {address : String}
    (h : "http".toList.isPrefixOf address.toList = true) : c.url address = address := by
  simp only [url, h, if_true]

end Client

end ForestPager.Http
