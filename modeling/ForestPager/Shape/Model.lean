import ForestPager.Failure
import ForestPager.Shape.Basic
import ForestPager.Text.Blank

/-!
# Reading shapes field by field

A sub-query and a shape may be given as objects with their fields by name. Every
field may be left out, unknown fields are passed over, and no value is converted.
All faults are listed, in the order of the fields, each with the way to it. That
ids are not blank is checked when the sub-queries are sound.

Results:

* `Shape.idIssues_eq_nil_iff`: the ids are accepted when none of them is blank.
-/

namespace ForestPager

/-- Put a way in front of the ways to some issues. -/
def Issue.under (path : List PathStep) (issues : List Issue) : List Issue :=
  issues.map fun i => { i with path := path ++ i.path }

/-- A field that has to hold an object; left out, it is empty. -/
def objectField (name : String) (fields : Json.Fields) : Json.Fields × List Issue :=
  match Json.field? name fields with
  | none => ([], [])
  | some (.obj fs) => (fs, [])
  | some _ => ([], [⟨[.name name], .notObject⟩])

namespace SubQuery

/-- The names under which the source of a sub-query may be given; the first one
that is there counts. -/
def sourceNames : List String := ["from", "from_"]

/-- A source: a text, or null for none. The issue names the field. -/
def readSource (name : String) : Json → Option QueryId × List Issue
  | .null => (none, [])
  | .str s => (some s, [])
  | _ => (none, [⟨[.name name], .notText⟩])

/-- The source among the fields of a sub-query. -/
def sourceField (fields : Json.Fields) : Option QueryId × List Issue :=
  match sourceNames.findSome? fun name => (Json.field? name fields).map fun v => (name, v) with
  | none => (none, [])
  | some (name, v) => readSource name v

/-- Read a sub-query; the issues are those found. -/
def readModel : Json → SubQuery × List Issue
  | .obj fields =>
    let (source, sourceIssues) := sourceField fields
    let (definition, definitionIssues) := objectField "definition" fields
    let (select, selectIssues) := objectField "select" fields
    (⟨source, definition, select⟩, sourceIssues ++ definitionIssues ++ selectIssues)
  | _ => (⟨none, [], []⟩, [⟨[], .notModel "SubQuery"⟩])

/-- Read a sub-query. -/
def ofModel (v : Json) : Except Failure SubQuery :=
  match readModel v with
  | (q, []) => .ok q
  | (_, issues) => .error (.invalid issues)

end SubQuery

namespace Shape

/-- The issue with the ids of sub-queries, if one of them is blank
(`QueryShape.validate_query_ids`). -/
def idIssues (ids : List QueryId) : List Issue :=
  if ids.any Text.isBlankText then [⟨[.name "queries"], .blankId⟩] else []

/-- The sub-queries among the fields of a shape. -/
def queriesField (fields : Json.Fields) : OrderedMap QueryId SubQuery × List Issue :=
  match Json.field? "queries" fields with
  | none => (∅, [])
  | some (.obj fs) =>
    let issues := fs.flatMap fun f =>
      Issue.under [.name "queries", .name f.1] (SubQuery.readModel f.2).2
    let queries := OrderedMap.ofList (fs.map fun f => (f.1, (SubQuery.readModel f.2).1))
    (queries, if issues.isEmpty then idIssues queries.keys else issues)
  | some _ => (∅, [⟨[.name "queries"], .notObject⟩])

/-- Read a shape; the issues are those found. -/
def readModel : Json → Shape × List Issue
  | .obj fields =>
    let (queries, queryIssues) := queriesField fields
    let (parameters, parameterIssues) := objectField "parameters" fields
    (⟨queries, parameters⟩, queryIssues ++ parameterIssues)
  | _ => (⟨∅, []⟩, [⟨[], .notModel "QueryShape"⟩])

/-- Read a shape. -/
def ofModel (v : Json) : Except Failure Shape :=
  match readModel v with
  | (s, []) => .ok s
  | (_, issues) => .error (.invalid issues)

/-- Read a shape from sub-queries, each of them read alone, and parameters, which
may be left out. The first faulty sub-query is the one reported. -/
def ofParts (queries : Json.Fields) (parameters : Option Json) : Except Failure Shape := do
  let queries ← queries.mapM fun f => (SubQuery.ofModel f.2).map fun q => (f.1, q)
  let queries : OrderedMap QueryId SubQuery := .ofList queries
  let (parameters, parameterIssues) :=
    objectField "parameters" (parameters.toList.map fun v => ("parameters", v))
  match idIssues queries.keys ++ parameterIssues with
  | [] => .ok ⟨queries, parameters⟩
  | issues => .error (.invalid issues)

theorem idIssues_eq_nil_iff (ids : List QueryId) :
    idIssues ids = [] ↔ ∀ x ∈ ids, Text.isBlankText x = false := by
  unfold idIssues
  split
  · next h => simpa using h
  · next h => simpa using h

end Shape

end ForestPager
