import LogQuery.Operator
import LogQuery.Literal
import LogQuery.Text.Split
/-!
# Matchers

A matcher is a key, an operator symbol and a raw value; every category of filters is rendered from
its matchers alone.
-/

namespace LogQuery

structure Matcher where
  key : String
  operator : String
  value : String
  deriving DecidableEq, Repr

/-- The value of a filter that has none yet. It is rendered as it is: two quotes, an empty
literal. -/
def emptyMarker : String := "\"\""

namespace Matcher

def isExclusive (m : Matcher) : Bool := Symbol.isExclusive m.operator

def isInclusive (m : Matcher) : Bool := Symbol.isInclusive m.operator

def isRegex (m : Matcher) : Bool := Symbol.isRegex m.operator

def isNumeric (m : Matcher) : Bool := Symbol.isNumeric m.operator

/-- The matcher with its value as a quoted literal. -/
def render (m : Matcher) : String :=
  if m.value = emptyMarker then m.key ++ m.operator ++ m.value
  else m.key ++ m.operator ++ Literal.quote m.value

/-- The matcher with its value bare, as numbers are compared. -/
def renderBare (m : Matcher) : String := m.key ++ m.operator ++ m.value

/-- One literal for several values. They may be regular expressions themselves, so that only the
quotes of the literal are escaped. -/
def renderAlternation (key operator : String) (values : List String) : String :=
  key ++ operator ++ "\"" ++ Text.alternation (values.map Literal.escape) ++ "\""

end Matcher

end LogQuery
