/-!
# Operator symbols

The operators of filters and of line filters with their symbols. A filter may carry any symbol, so
the classes are classes of symbols: each is inclusive or exclusive; matching by regular expression
and numeric comparison are independent of that.
-/

namespace LogQuery

/-- Operators of label, metadata and field filters. -/
inductive Operator
  | equal
  | notEqual
  | matching
  | notMatching
  | greater
  | less
  | atLeast
  | atMost
  deriving DecidableEq, Repr

/-- Operators of line filters. -/
inductive LineOperator
  | containing
  | notContaining
  | matching
  | notMatching
  deriving DecidableEq, Repr

/-- Whether a line filter tells upper from lower case; written in the key of the filter. -/
inductive CaseMode
  | sensitive
  | insensitive
  deriving DecidableEq, Repr

def Operator.symbol : Operator → String
  | equal => "="
  | notEqual => "!="
  | matching => "=~"
  | notMatching => "!~"
  | greater => ">"
  | less => "<"
  | atLeast => ">="
  | atMost => "<="

def LineOperator.symbol : LineOperator → String
  | containing => "|="
  | notContaining => "!="
  | matching => "|~"
  | notMatching => "!~"

def CaseMode.key : CaseMode → String
  | sensitive => "caseSensitive"
  | insensitive => "caseInsensitive"

namespace Symbol

def isExclusive (symbol : String) : Bool :=
  symbol ∈ [Operator.notEqual.symbol, Operator.notMatching.symbol,
    LineOperator.notContaining.symbol, LineOperator.notMatching.symbol]

/-- Whatever is not exclusive is inclusive, unknown symbols too. -/
def isInclusive (symbol : String) : Bool := !isExclusive symbol

def isRegex (symbol : String) : Bool :=
  symbol ∈ [Operator.matching.symbol, Operator.notMatching.symbol,
    LineOperator.matching.symbol, LineOperator.notMatching.symbol]

def isNumeric (symbol : String) : Bool :=
  symbol ∈ [Operator.greater.symbol, Operator.atLeast.symbol, Operator.less.symbol,
    Operator.atMost.symbol]

end Symbol

end LogQuery
