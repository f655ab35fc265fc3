import ForestPager.OrderedMap
import ForestPager.Forest.Walk

/-!
# Dependency forests

A sub-query continues from at most one other sub-query, so the sub-queries of a
query form a forest. It is kept as a table of nodes in declaration order, each
with its parent and children, and the list of roots.

`ancestors` follows the parents up, `descendants` visits everything below an id
in preorder. The number of nodes bounds the steps of either walk.

Results:

* `rootOf_eq_self`: an id without ancestors is its own root.
-/

namespace ForestPager

/-- The place of a sub-query in the forest (`SubQueryNode`), by the one that it continues from, if
any, and those that continue from it, in declaration order. -/
structure Node where
  parent : Option QueryId
  children : List QueryId
deriving DecidableEq

/-- Sub-queries linked by the relation "continues from" (`DependencyForest`). Nodes and roots are
in declaration order. -/
structure Forest where
  nodes : OrderedMap QueryId Node
  roots : List QueryId
deriving DecidableEq

namespace Forest

instance : Inhabited Forest := ⟨⟨∅, []⟩⟩

/-- All ids, in declaration order. -/
def ids (f : Forest) : List QueryId := f.nodes.keys

/-- The number of nodes. -/
def size (f : Forest) : Nat := f.nodes.size

/-- Whether an id has a node. -/
def contains (f : Forest) (x : QueryId) : Bool := f.nodes.contains x

/-- The id that `x` continues from. -/
def parent? (f : Forest) (x : QueryId) : Option QueryId := (f.nodes.get? x).bind (·.parent)

/-- The ids that continue from `x`, in declaration order (`DependencyForest.children`). -/
def children (f : Forest) (x : QueryId) : List QueryId :=
  ((f.nodes.get? x).map (·.children)).getD []

/-- The ids above `x`, nearest first (`DependencyForest.ancestors`). -/
def ancestors (f : Forest) (x : QueryId) : List QueryId := climb f.parent? f.size x

/-- The ids below `x`, each child followed by what is below it (`DependencyForest.descendants`). -/
def descendants (f : Forest) (x : QueryId) : List QueryId :=
  (tour f.children f.size (f.children x)).visited

/-- The root of the tree that `x` stands in (`DependencyForest.root_of`). -/
def rootOf (f : Forest) (x : QueryId) : QueryId := (f.ancestors x).getLast?.getD x

theorem rootOf_eq_self {f : Forest} {x : QueryId} (h : f.parent? x = none) : f.rootOf x = x := by
  simp [rootOf, ancestors, climb_of_none h]

theorem contains_iff (f : Forest) (x : QueryId) : f.contains x = true ↔ x ∈ f.ids :=
  f.nodes.contains_iff x

end Forest

end ForestPager
