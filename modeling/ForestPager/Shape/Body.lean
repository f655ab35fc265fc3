import ForestPager.Payload
import ForestPager.Shape.Model
import ForestPager.Shape.Pairs

/-!
# Reading shapes from query bodies

A query body is an object with the definitions of the sub-queries under `with`,
their columns under `select`, and `parameters`. The sub-query that another one
continues from stands inside its definition, in the `nodes` or the `edges`
expression. Void parts count as absent, and columns and parameters may be given
as lists of pairs.

The sub-queries are read one by one, then the parameters, then the ids; the first
fault that stops the reading is the one reported.

Results:

* `sourceOf`: where the source of a definition is found.
* `Shape.ofBody_not_obj`: only objects are bodies.
-/

namespace ForestPager

/-- The expressions in which a definition may say what it continues from (`FROM_EXPRESSION_KEYS`),
in the order in which they are looked at. -/
def sourceExpressions : List String := ["nodes", "edges"]

/-- The source that a definition names in one of its expressions, unless void. -/
def sourceIn (definition : Json.Fields) (name : String) : Option Json :=
  match Json.field? name definition with
  | some (.obj expression) =>
    (Json.field? "from" expression).filter fun v => !v.isVoid
  | _ => none

/-- The source that a definition names, null when it names none (`_extract_from`). -/
def sourceOf (definition : Json.Fields) : Json :=
  (sourceExpressions.findSome? (sourceIn definition)).getD .null

namespace SubQuery

/-- Read a sub-query from its definition and its columns. -/
def ofBody (definition : Json) (columns : Except Failure Json) : Except Failure SubQuery := do
  let fields ← Payload.fields "get" definition
  let pairs ← Pairs.ofOptional (← columns)
  let (source, sourceIssues) := readSource "from_" (sourceOf fields)
  let (select, selectIssues) := Pairs.fields [.name "select"] pairs
  match sourceIssues ++ selectIssues with
  | [] => .ok ⟨source, fields, select⟩
  | issues => .error (.invalid issues)

end SubQuery

namespace Shape

/-- The columns of a sub-query; null when there are none. -/
def columnsOf (select : Json) (x : QueryId) : Except Failure Json :=
  if select.isVoid then .ok .null
  else (Payload.fields "get" select).map (Json.fieldOrNull x)

/-- Read the sub-queries of a body one by one. -/
def queriesOfBody (select : Json) : Json.Fields → Except Failure (List (QueryId × SubQuery))
  | [] => .ok []
  | (x, definition) :: rest => do
    let q ← SubQuery.ofBody definition (columnsOf select x)
    let qs ← queriesOfBody select rest
    pure ((x, q) :: qs)

/-- Read a shape from a query body. -/
def ofBody (body : Json) : Except Failure Shape := do
  let fields ← Payload.fields "get" body
  let definitions ← Payload.optionalFields "items" (Json.fieldOrNull "with" fields)
  let queries ← queriesOfBody (Json.fieldOrNull "select" fields) definitions
  let pairs ← Pairs.ofOptional (Json.fieldOrNull "parameters" fields)
  let (parameters, parameterIssues) := Pairs.fields [.name "parameters"] pairs
  match idIssues (queries.map Prod.fst) ++ parameterIssues with
  | [] => .ok ⟨.ofList queries, parameters⟩
  | issues => .error (.invalid issues)

theorem ofBody_not_obj {body : Json} (h : ∀ fields, body ≠ .obj fields) :
    ofBody body = .error (.notObject body.typeName "get") := by
  cases body <;> first | rfl | exact absurd rfl (h _)

end Shape

end ForestPager
