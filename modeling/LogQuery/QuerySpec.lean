import LogQuery.Schema.Filter
/-!
# Query specifications

What is handed on for execution: the expression with its settings. A caller may override settings,
but not the expression.
-/

namespace LogQuery

open Schema Codec Fields

structure QuerySpec where
  refId : String := "A"
  queryType : String := "range"
  editorMode : String := "code"
  supportingQueryType : String := "grafana-lokiexplore-app"
  expr : String
  resource : Option String := none
  primaryLabel : Option String := none
  datasource : Option (List (String × String)) := none
  deriving DecidableEq, Repr

/-- The settings that a client of the service may override. -/
structure SpecChanges where
  refId : Option String := none
  queryType : Option String := none
  editorMode : Option String := none
  supportingQueryType : Option String := none
  deriving DecidableEq, Repr

def QuerySpec.codec : Codec QuerySpec :=
  ((pair (aliased "ref_id" "refId" string "A") <|
    pair (aliased "query_type" "queryType" string "range") <|
    pair (aliased "editor_mode" "editorMode" string "code") <|
    pair (aliased "supporting_query_type" "supportingQueryType" string "grafana-lokiexplore-app") <|
    pair (required "expr" string) <|
    pair (optional "resource" (nullable string) none) <|
    pair (aliased "primary_label" "primaryLabel" (nullable string) none) <|
    optional "datasource" (nullable dictionary) none).map
    (fun (refId, queryType, editorMode, supporting, expr, resource, primaryLabel, datasource) =>
      ⟨refId, queryType, editorMode, supporting, expr, resource, primaryLabel, datasource⟩)
    (fun q => (q.refId, q.queryType, q.editorMode, q.supportingQueryType, q.expr, q.resource,
      q.primaryLabel, q.datasource))).model

def SpecChanges.codec : Codec SpecChanges :=
  ((pair (aliased "ref_id" "refId" (nullable string) none) <|
    pair (aliased "query_type" "queryType" (nullable string) none) <|
    pair (aliased "editor_mode" "editorMode" (nullable string) none) <|
    aliased "supporting_query_type" "supportingQueryType" (nullable string) none).map
    (fun (refId, queryType, editorMode, supporting) => ⟨refId, queryType, editorMode, supporting⟩)
    (fun c => (c.refId, c.queryType, c.editorMode, c.supportingQueryType))).closedModel

namespace QuerySpec

/-- The data source is left to the variable of the dashboard. -/
def variableSource : Json := .object [("uid", .string "$\x7bds\x7d")]

/-- A range query for the expression. -/
def ofExpression (expr : Json) (overrides : Json.Members) : Checked QuerySpec :=
  codec.read (.object (Json.Members.set overrides "expr" expr))

/-- A query of a resource. The expression, the primary label and the data source are set last, under
their plain names. -/
def ofResource (expr resource primaryLabel : Json) (overrides : Json.Members) :
    Checked QuerySpec :=
  let defaults : Json.Members := [("ref_id", resource), ("resource", resource)]
  let settings := overrides.foldl (fun ms m => Json.Members.set ms m.1 m.2) defaults
  let fixed : Json.Members :=
    [("expr", expr), ("primary_label", primaryLabel), ("datasource", variableSource)]
  codec.read (.object (fixed.foldl (fun ms m => Json.Members.set ms m.1 m.2) settings))

/-- The range query of the service, with the settings that its client overrides. -/
def changed (expr : String) (c : SpecChanges) : QuerySpec :=
  let q : QuerySpec := { expr }
  { q with
    refId := c.refId.getD q.refId
    queryType := c.queryType.getD q.queryType
    editorMode := c.editorMode.getD q.editorMode
    supportingQueryType := c.supportingQueryType.getD q.supportingQueryType }

end QuerySpec

end LogQuery
