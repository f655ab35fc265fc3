import ForestPager.Backend.Paged
import ForestPager.Session
import ForestPager.Text.Column

/-!
# The walk over an example

A chain of three sub-queries and a fourth one beside it are paged against a
backend that has the same number of pages for each. Every page holds one item,
which names the sub-query and the page, and every round is reported in one line.

Results:

* `Walk.report`: the lines, one for each round.
-/

namespace ForestPager.Walk

/-- An expression that continues from a source. -/
def continuing (kind source : String) : Json.Fields :=
  [(kind, .obj [("from", .str source)])]

/-- The example query. -/
def exampleShape : Shape where
  queries := .ofList
    [("startNodes", { definition := [("nodes", .obj [])] }),
     ("edges", { source := some "startNodes", definition := continuing "edges" "startNodes" }),
     ("endNodes", { source := some "edges", definition := continuing "nodes" "edges" }),
     ("other", { definition := [("nodes", .obj [])] })]

/-- The item of a page. -/
def item (x : QueryId) (page : Int) : String := x ++ "[" ++ toString page ++ "]"

/-- The answer to a request when every sub-query has `pages` pages (`fetch_page`). -/
def answer (pages : Int) (request : Request) : Outcome :=
  let backend : Paged := { count := fun _ _ => pages, pageSize := 1 }
  .ok
    { items := request.queries.mapValues fun x _ => .arr [.str (item x (backend.pageIn request x))]
      nextCursors := request.queries.filterMap fun x _ =>
        (backend.nextCursor request x).map some }

/-- A text as it is shown among items. -/
def shown : Json → String
  | .str s => s
  | _ => ""

/-- The line of one page. -/
def line (p : Page) : String :=
  let leaves := if p.leaves.isEmpty then "(first round)" else ", ".intercalate p.leaves
  "round " ++ Text.padLeft 2 (toString p.index) ++ "  advance: " ++ Text.padRight 22 leaves ++
    " fetched: " ++ " ".intercalate (p.items.values.flatten.map shown)

/-- The lines of the walk (`main`), for at most `calls` rounds. -/
def report (pages : Int) (calls : Nat) : List String :=
  match Session.ofShape exampleShape ∅ with
  | .error failure => [failure.message]
  | .ok (session, _) =>
    (Id.run (session.drain (fun request => pure (answer pages request)) calls)).pages.map line

end ForestPager.Walk
