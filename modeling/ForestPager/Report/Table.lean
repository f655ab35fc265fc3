import ForestPager.Http.QueryClient
import ForestPager.Session
import ForestPager.Shape.Body
import ForestPager.Text.Column

/-!
# The table of a query's rounds

A query body is paged against a service and every round becomes a row: its
number, the leaves it advanced, the number of its items and the stage that the run
has reached. The body is read first, then the client is made, then the forest is
linked; a fault in any of these leaves no line at all. A round that fails ends the
table without its last rule. The connection is closed in any case.

Results:

* `Table.report`: the lines of the table and what went wrong, if anything did.
-/

namespace ForestPager

/-- The name of a stage. -/
def RunState.name : RunState → String
  | new => "new"
  | active => "active"
  | finished => "finished"

namespace Table

/-- What to ask, and of whom: the address of the service, the project, the token that is sent with
everything, and the sub-queries whose cursors are not followed. -/
structure Options where
  base : String := ""
  project : String := ""
  token : Option String := none
  neverPaginate : List QueryId := []

/-- What was printed, what went wrong, and the connections that were opened. -/
structure Printout where
  lines : List String
  failure : Option Failure
  connections : List Http.Connection

/-- A line of one character. -/
def rule (c : Char) : String := String.ofList (List.replicate 65 c)

/-- Four cells as one row. -/
def row (index leaves items state : String) : String :=
  " | ".intercalate [Text.padLeft 5 index, Text.padRight 30 leaves, Text.padLeft 8 items,
    Text.padRight 10 state]

/-- The row of a page. -/
def pageRow (p : Page) : String :=
  let leaves := ", ".intercalate p.leaves
  let state : RunState := if p.finished then .finished else .active
  row (toString p.index) (if leaves = "" then "-" else leaves) (toString p.totalItems) state.name

/-- The lines above the first row. -/
def heading : List String :=
  [rule '=', row "Round" "Leaves" "Items" "State", rule '-']

/-- The headers sent with everything: the token, if there is one. -/
def headers (o : Options) : Http.Headers :=
  match o.token with
  | some token => if token = "" then [] else [("Authorization", "Bearer " ++ token)]
  | none => []

/-- Page a query body and print its rounds (`main`), at most `calls` of them; `send` carries a
POST out. -/
def report {m : Type → Type} [Monad m] (send : Http.Post → m Http.PostOutcome) (o : Options)
    (body : Json) (calls : Nat) : m Printout :=
  let setup := do
    let shape ← Shape.ofBody body
    let client ← Http.QueryClient.new o.base o.project Http.Client.usualTimeout (headers o)
    let (session, _) ← Session.ofShape shape (.ofList o.neverPaginate)
    pure (client, session)
  match setup with
  | .error failure => pure ⟨[], some failure, []⟩
  | .ok (client, session) => do
    let (drain, client) ← (session.drain (Http.QueryClient.execute send) calls).run client
    let rows := heading ++ drain.pages.map pageRow
    let connections := client.close.client.connections
    match drain.failure with
    | some failure => pure ⟨rows, some failure, connections⟩
    | none => pure ⟨rows ++ [rule '='], none, connections⟩

end Table

end ForestPager
