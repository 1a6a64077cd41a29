import LogQuery.QuerySpec
import LogQuery.Schema.Time
/-!
# Codecs of the requests
-/

namespace LogQuery

open Schema Codec Fields

/-- The filters of every variable, to be compiled. -/
structure CompileOrder where
  labels : List Filter
  metadata : List Filter
  fields : List Filter
  lineFilters : List Filter
  patterns : List Pattern
  levels : List Filter
  changes : SpecChanges
  deriving DecidableEq

/-- A request for values of a label. -/
structure LabelLookup where
  filter : Filter
  filters : List Filter
  datasource : String
  window : Option TimeWindow
  deriving DecidableEq

/-- A request for values of a detected field or a metadata key. -/
structure FieldLookup where
  filter : Filter
  filters : List Filter
  expr : String
  variableType : String
  limit : Int
  window : Option TimeWindow
  deriving DecidableEq

structure FavoriteOrder where
  values : List String
  deriving DecidableEq

def CompileOrder.codec : Codec CompileOrder :=
  ((pair (optional "labels" (list Filter.codec) []) <|
    pair (optional "metadata" (list Filter.codec) []) <|
    pair (optional "fields" (list Filter.codec) []) <|
    pair (optional "line_filters" (list Filter.codec) []) <|
    pair (optional "patterns" (list Pattern.codec) []) <|
    pair (optional "levels" (list Filter.codec) []) <|
    optional "query_overrides" SpecChanges.codec {}).map
    (fun (labels, metadata, fields, lineFilters, patterns, levels, changes) =>
      ⟨labels, metadata, fields, lineFilters, patterns, levels, changes⟩)
    (fun o => (o.labels, o.metadata, o.fields, o.lineFilters, o.patterns, o.levels,
      o.changes))).model

def LabelLookup.codec : Codec LabelLookup :=
  ((pair (required "filter" Filter.codec) <|
    pair (optional "filters" (list Filter.codec) []) <|
    pair (optional "datasource_uid" string "default") <|
    optional "time_range" (nullable TimeWindow.codec) none).map
    (fun (filter, filters, datasource, window) => ⟨filter, filters, datasource, window⟩)
    (fun r => (r.filter, r.filters, r.datasource, r.window))).model

def FieldLookup.codec : Codec FieldLookup :=
  ((pair (required "filter" Filter.codec) <|
    pair (optional "filters" (list Filter.codec) []) <|
    pair (required "expr" string) <|
    pair (optional "variable_type" string "fields") <|
    pair (optional "limit" (integerBetween 1 5000) 1000) <|
    optional "time_range" (nullable TimeWindow.codec) none).map
    (fun (filter, filters, expr, variableType, limit, window) =>
      ⟨filter, filters, expr, variableType, limit, window⟩)
    (fun r => (r.filter, r.filters, r.expr, r.variableType, r.limit, r.window))).model

def FavoriteOrder.codec : Codec FavoriteOrder :=
  ((required "values" (nonEmptyList string)).map FavoriteOrder.mk FavoriteOrder.values).model

end LogQuery
