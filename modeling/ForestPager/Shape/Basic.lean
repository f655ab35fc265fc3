import ForestPager.Json.Basic
import ForestPager.Forest.Build

/-!
# Query shapes

A composite query is a set of named sub-queries with parameters. What a
sub-query asks for is a payload that passes through; only the sub-query it
continues from matters for paging. Declaration order decides the order of roots
and children in the forest, and with it the order of leaves.

Results:

* `Shape.keys_dependencies`: every sub-query has its entry among the dependencies.
-/

namespace ForestPager

/-- One part of a composite query, which may continue from another one. Its definition and its
columns are passed on as they are. -/
structure SubQuery where
  source : Option QueryId := none
  definition : Json.Fields := []
  select : Json.Fields := []
deriving DecidableEq, Inhabited

/-- A composite query (`QueryShape`), with its sub-queries in declaration order. The parameters
are passed on as they are. -/
structure Shape where
  queries : OrderedMap QueryId SubQuery
  parameters : Json.Fields := []
deriving DecidableEq, Inhabited

namespace Shape

/-- The ids of the sub-queries, in declaration order (`QueryShape.ids`). -/
def ids (s : Shape) : List QueryId := s.queries.keys

/-- Whether an id names a sub-query. -/
def contains (s : Shape) (x : QueryId) : Bool := s.queries.contains x

/-- For each sub-query, the one it continues from (`QueryShape.dependencies`). -/
def dependencies (s : Shape) : Dependencies := s.queries.mapValues fun _ q => q.source

/-- The named sub-queries, in declaration order (`QueryShape.subset`). -/
def subset (s : Shape) (ids : List QueryId) : OrderedMap QueryId SubQuery :=
  s.queries.filterKeys ids.contains

/-- The forest of the sub-queries. -/
def forest (s : Shape) : Except Forest.Defect Forest :=
  Forest.ofDependencies s.dependencies

@[simp] theorem keys_dependencies (s : Shape) : s.dependencies.keys = s.ids :=
  OrderedMap.keys_mapValues _ _

end Shape

end ForestPager
