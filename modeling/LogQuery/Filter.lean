import LogQuery.Matcher
/-!
# Filters

What a filter variable holds: matchers with what the pickers attach to them, the structured value of
a field, line patterns, and the values that are suggested.
-/

namespace LogQuery

/-- The parser that produced a field. -/
inductive Parser
  | logfmt
  | json
  | structuredMetadata
  | mixed
  deriving DecidableEq, Repr

def Parser.name : Parser → String
  | logfmt => "logfmt"
  | json => "json"
  | structuredMetadata => "structuredMetadata"
  | mixed => "mixed"

def Parser.all : List Parser := [logfmt, json, structuredMetadata, mixed]

/-- What the key picker knows about the field of a filter. -/
structure FieldOrigin where
  parser : Option Parser
  deriving DecidableEq, Repr

structure Filter extends Matcher where
  valueLabels : Option (List String)
  origin : Option FieldOrigin
  deriving DecidableEq, Repr

def Matcher.toFilter (m : Matcher) : Filter := { m with valueLabels := none, origin := none }

/-- The parser that the key picker attached. -/
def Filter.parser? (f : Filter) : Option Parser := f.origin.bind FieldOrigin.parser

def matchers (fs : List Filter) : List Matcher := fs.map Filter.toMatcher

/-- The value of a structured field, with the parser it is read by. -/
structure FieldValue where
  value : String
  parser : Parser
  deriving DecidableEq, Repr

structure FieldFilter where
  key : String
  operator : String
  value : FieldValue
  deriving DecidableEq, Repr

def FieldFilter.toMatcher (f : FieldFilter) : Matcher := ⟨f.key, f.operator, f.value.value⟩

inductive PatternMode
  | keep
  | drop
  deriving DecidableEq, Repr

def PatternMode.name : PatternMode → String
  | keep => "include"
  | drop => "exclude"

def PatternMode.all : List PatternMode := [keep, drop]

/-- A detected line pattern. -/
structure Pattern where
  template : String
  mode : PatternMode
  deriving DecidableEq, Repr

/-- A value offered for a filter, and what the filter is set to when it is picked. -/
structure Suggestion where
  text : String
  value : Option String
  deriving DecidableEq, Repr

end LogQuery
