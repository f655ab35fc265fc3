import ForestPager.Failure
import ForestPager.Scalar

/-!
# When two items are the same

A sub-query that is repeated returns items again. Which items count as the same
is said by an identity: the whole item, one of its fields or several of them. Only
scalars can be compared, by what they stand for.

Results:

* `Identity.key_constant`: under the constant identity all items are the same.
-/

namespace ForestPager

/-- What an item is told apart by. -/
inductive ItemKey
  | single (s : Scalar)
  | several (ss : List Scalar)
deriving DecidableEq

/-- A `dedupe_key`: the whole item, a constant, a field that every item has or one that an item
may lack, or several fields that every item has. -/
inductive Identity
  | whole
  | constant
  | field (name : String)
  | optionalField (name : String)
  | fields (names : List String)
deriving DecidableEq

namespace Identity

/-- A value as a part of a key. -/
def scalarOf (v : Json) : Except Failure Scalar :=
  match v.scalar? with
  | some s => .ok s
  | none => .error (.notKey v.typeName)

/-- The value of a field that has to be there. -/
def requiredField (name : String) : Json → Except Failure Json
  | .obj fs =>
    match Json.field? name fs with
    | some v => .ok v
    | none => .error (.missingKey name)
  | v => .error (.notIndexable v.typeName)

/-- The value of a field that may be lacking; it is null then. -/
def lenientField (name : String) : Json → Except Failure Json
  | .obj fs => .ok (Json.fieldOrNull name fs)
  | v => .error (.notObject v.typeName "get")

/-- The key of an item. -/
def key : Identity → Json → Except Failure ItemKey
  | whole, v => (scalarOf v).map .single
  | constant, _ => .ok (.single .null)
  | field name, v => do pure (.single (← scalarOf (← requiredField name v)))
  | optionalField name, v => do pure (.single (← scalarOf (← lenientField name v)))
  | fields names, v => do
    let vs ← names.mapM fun name => requiredField name v
    pure (.several (← vs.mapM scalarOf))

theorem key_constant (v w : Json) : constant.key v = constant.key w := rfl

end Identity

end ForestPager
