import ForestPager.Forest.Basic
import ForestPager.Text.Quoted

/-!
# Linking dependencies into a forest

Dependencies map each sub-query to the one it continues from, in declaration
order; a parent may be declared after its children. Two defects are possible. A
parent may be unknown. And if all parents are known, some ids may not hang on any
root: they stand on a cycle or below one.

Results:

* `ofDependencies_eq_ok`: what a forest looks like when there is no defect.
* `Defect.message`: the wording of each defect.
-/

namespace ForestPager

/-- For each sub-query, in declaration order, the one it continues from. -/
abbrev Dependencies := OrderedMap QueryId (Option QueryId)

namespace Dependencies

/-- The ids that name `x` as their parent, in declaration order: `children` in `build_forest`. -/
def childrenOf (deps : Dependencies) (x : QueryId) : List QueryId :=
  (deps.entries.filter fun e => decide (e.2 = some x)).map Prod.fst

/-- The ids without a parent, in declaration order: `roots` in `build_forest`. -/
def roots (deps : Dependencies) : List QueryId :=
  (deps.entries.filter fun e => decide (e.2 = none)).map Prod.fst

/-- Whether the parent given for an entry is no id of the map. -/
def isDangling (deps : Dependencies) (parent : Option QueryId) : Bool :=
  match parent with
  | none => false
  | some p => !deps.contains p

/-- The ids whose parent is unknown: `referrers` in `build_forest`. -/
def referrers (deps : Dependencies) : List QueryId :=
  (deps.entries.filter fun e => deps.isDangling e.2).map Prod.fst

/-- The unknown parents, each once: `dangling` in `build_forest`. -/
def unknownParents (deps : Dependencies) : List QueryId :=
  distinctIds ((deps.entries.filter fun e => deps.isDangling e.2).filterMap Prod.snd)

/-- The visit of everything below the roots: `reachable` in `build_forest`. -/
def reach (deps : Dependencies) : Tour := tour deps.childrenOf deps.size deps.roots

/-- The ids that no root leads to: `cyclic` in `build_forest`. -/
def unreached (deps : Dependencies) : List QueryId :=
  let reached := deps.reach.visited
  deps.keys.filter fun x => !reached.contains x

/-- The node of each id. -/
def link (deps : Dependencies) : Forest where
  nodes := deps.mapValues fun x parent => ⟨parent, deps.childrenOf x⟩
  roots := deps.roots

end Dependencies

namespace Forest

/-- Why dependencies do not form a forest, with sorted ids: the `referrers` continue from ids that
are not there, or the ids stand on a cycle or below one. -/
inductive Defect
  | unknownParents (referrers missing : List QueryId)
  | cyclic (ids : List QueryId)
deriving DecidableEq

namespace Defect

/-- The wording of a defect. -/
def message : Defect → String
  | unknownParents referrers missing =>
    "Sub-queries " ++ Text.quoteList referrers ++ " continue from unknown sub-queries " ++
      Text.quoteList missing
  | cyclic ids => "Sub-queries " ++ Text.quoteList ids ++ " form a cycle"

/-- The unknown parents, or the ids that no root leads to (`ShapeError.query_ids`). -/
def queryIds : Defect → List QueryId
  | unknownParents _ missing => missing
  | cyclic ids => ids

end Defect

/-- Link dependencies into a forest (`build_forest`). Unknown parents are reported before cycles. -/
def ofDependencies (deps : Dependencies) : Except Defect Forest :=
  match deps.unknownParents with
  | m :: ms => .error (.unknownParents (sortIds deps.referrers) (sortIds (m :: ms)))
  | [] =>
    match deps.unreached with
    | x :: xs => .error (.cyclic (sortIds (x :: xs)))
    | [] => .ok deps.link

/-- Without a defect the forest links every id as declared. -/
theorem ofDependencies_eq_ok {deps : Dependencies} {f : Forest} :
    ofDependencies deps = .ok f ↔
      deps.unknownParents = [] ∧ deps.unreached = [] ∧ deps.link = f := by
  unfold ofDependencies
  split
  · next h => simp [h]
  · next h =>
    split
    · next h' => simp [h']
    · next h' => simp [h, h']

@[simp] theorem ids_link (deps : Dependencies) : deps.link.ids = deps.keys := by
  simp [Forest.ids, Dependencies.link]

end Forest

end ForestPager
