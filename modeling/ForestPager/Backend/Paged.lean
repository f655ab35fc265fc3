import ForestPager.Number.Numeral
import ForestPager.Page

/-!
# A backend of numbered pages

A backend that answers from memory. Every sub-query has a number of pages, which
may depend on the pages at which the sub-queries above it stand. The cursor of a
page is its number, as a text; without a cursor a sub-query stands at page zero.
A number will do as a cursor, too.
Each page has as many items as the page size says, and all but the last page offer
the next one.

Results:

* `Paged.ofCounts`: the case where the numbers of pages do not depend on anything.
-/

namespace ForestPager

/-- A backend of numbered pages (`PagedBackend`). The number of pages of a sub-query may depend on
the pages of those above it, which `count` is given with the nearest first. -/
structure Paged where
  count : QueryId → List Int → Int
  pageSize : Nat := 2
  /-- Whether a cursor of more than the allowed number of digits is refused. -/
  limited : Bool := true

namespace Paged

/-- Fixed numbers of pages; a sub-query without a number has one page. -/
def ofCounts (counts : OrderedMap QueryId Int) (pageSize : Nat) : Paged where
  count x _ := (counts.get? x).getD 1
  pageSize := pageSize

/-- The whole number that a value stands for: a written one, a number without its
fraction, or a truth value as one or zero. -/
def wholeOf (limited : Bool) : Json → Except Failure Int
  | .int n => .ok n
  | .bool b => .ok (if b then 1 else 0)
  | .float (.finite negative m e) => .ok (((Binary64.finite negative m e).truncate?).getD 0)
  | .float (.infinite _) => .error .infinite
  | .float .nan => .error .nan
  | .str s =>
    match readInteger? s limited, excessDigits? s with
    | some n, _ => .ok n
    | none, some count => .error (.tooManyDigits count)
    | none, none => .error (.notWhole s)
  | v => .error (.notNumeric v.typeName)

/-- The page that a cursor names; page zero without a cursor. -/
def pageOf (b : Paged) : Option Cursor → Except Failure Int
  | none => .ok 0
  | some c => wholeOf b.limited c.value

/-- The page at which a request has a sub-query stand. -/
def pageIn (b : Paged) (request : Request) (x : QueryId) : Int :=
  match b.pageOf ((request.queries.get? x).bind (·.cursor)) with
  | .ok n => n
  | .error _ => 0

/-- The sub-queries above one in a request, the nearest first. -/
def above (request : Request) (x : QueryId) : List QueryId :=
  climb (fun y => (request.queries.get? y).bind (·.subQuery.source)) request.size x

/-- The items of a page: the sub-query, the page and a number, each with a dash in
between. -/
def pageItems (b : Paged) (x : QueryId) (page : Int) : List Json :=
  (List.range b.pageSize).map fun i =>
    .str (x ++ "-" ++ toString page ++ "-" ++ toString i)

/-- The cursor of the page after a given one, if there is one. -/
def nextCursor (b : Paged) (request : Request) (x : QueryId) : Option Cursor :=
  let page := b.pageIn request x
  if page + 1 < b.count x ((above request x).map (b.pageIn request)) then
    some (.ofText (toString (page + 1)))
  else none

/-- What is wrong with the first cursor of a request that names no page. -/
def unreadable? (b : Paged) (request : Request) : Option Failure :=
  request.queries.values.findSome? fun r =>
    match b.pageOf r.cursor with
    | .ok _ => none
    | .error failure => some failure

/-- The answer to a request (`PagedBackend.execute`). -/
def answer (b : Paged) (request : Request) : Outcome :=
  match b.unreadable? request with
  | some failure => .error failure
  | none => .ok
    { items := request.queries.mapValues fun x _ => .arr (b.pageItems x (b.pageIn request x))
      nextCursors := request.queries.filterMap fun x _ => (b.nextCursor request x).map some }

end Paged

end ForestPager
