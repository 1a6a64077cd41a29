import LogQuery.Filter
import LogQuery.Selector
import LogQuery.Stage
import LogQuery.LineFilter
/-!
# Expressions

A query is compiled from the filters of every category: one fragment each, put together in a fixed
order behind the selector.
-/

namespace LogQuery

/-- The excluded patterns one by one, then the included ones as one alternative. -/
def Pattern.renderAll (ps : List Pattern) : String :=
  let dropped := ps.filter (·.mode = .drop)
  let kept := ps.filter (·.mode = .keep)
  Text.joinNonEmpty
    [" ".intercalate (dropped.map fun p => "!> " ++ Literal.quote p.template),
      if kept = [] then ""
      else "|> " ++ " or ".intercalate (kept.map fun p => Literal.quote p.template)]

/-- The filters of a query. The values of `fields` are out of their envelopes. -/
structure FilterState where
  labels : List Matcher := []
  metadata : List Matcher := []
  fields : List Matcher := []
  lineFilters : List Matcher := []
  patterns : List Pattern := []
  levels : List Matcher := []

structure Fragments where
  labels : String
  metadata : String
  levels : String
  fields : String
  lineFilters : String
  patterns : String
  deriving DecidableEq, Repr

namespace FilterState

def fragments (s : FilterState) : Fragments where
  labels := Selector.body s.labels
  metadata := Stage.metadata s.metadata
  levels := Stage.levels s.levels
  fields := Stage.fields s.fields
  lineFilters := LineFilter.renderAll s.lineFilters
  patterns := Pattern.renderAll s.patterns

end FilterState

namespace Fragments

/-- The selector; without labels it is the one of every stream. -/
def selector (f : Fragments) : String :=
  if f.labels = "" then Selector.all else "\x7b" ++ f.labels ++ "\x7d"

def expression (f : Fragments) : String :=
  Text.joinNonEmpty [f.selector, f.metadata, f.levels, f.fields, f.lineFilters, f.patterns]

end Fragments

def FilterState.expression (s : FilterState) : String := s.fragments.expression

end LogQuery
