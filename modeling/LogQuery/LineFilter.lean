import LogQuery.Matcher
/-!
# Line filters

Filters on the text of the line. The key of the matcher says whether case matters. They are rendered
in a fixed order, and those without a value are left out.
-/

namespace LogQuery.LineFilter

def caseRank (key : String) : Nat :=
  if key = CaseMode.sensitive.key then 0
  else if key = CaseMode.insensitive.key then 1
  else 2

def operatorRank (symbol : String) : Nat :=
  if symbol = LineOperator.containing.symbol then 0
  else if symbol = LineOperator.notContaining.symbol then 1
  else if symbol = LineOperator.matching.symbol then 2
  else if symbol = LineOperator.notMatching.symbol then 3
  else 4

/-- By case mode, then by operator; unknown ones last. -/
def precedes (a b : Matcher) : Bool :=
  caseRank a.key < caseRank b.key
    || caseRank a.key = caseRank b.key && operatorRank a.operator ≤ operatorRank b.operator

/-- The filters in order; those of equal rank stay as they were. -/
def sort (ms : List Matcher) : List Matcher := ms.mergeSort precedes

def isInsensitive (m : Matcher) : Bool := m.key = CaseMode.insensitive.key

/-- Whether the value is looked for as it stands. -/
def isPlain (m : Matcher) : Bool :=
  m.operator = LineOperator.containing.symbol || m.operator = LineOperator.notContaining.symbol

/-- A plain text that is to match in any case goes through a regular expression. -/
def content (m : Matcher) : String :=
  if isPlain m && isInsensitive m then Literal.escapeForRegex m.value else Literal.escape m.value

def render (m : Matcher) : String :=
  if isInsensitive m then
    let operator :=
      if m.operator = LineOperator.notMatching.symbol
          || m.operator = LineOperator.notContaining.symbol then LineOperator.notMatching
      else LineOperator.matching
    operator.symbol ++ " \"(?i)" ++ content m ++ "\""
  else m.operator ++ " \"" ++ content m ++ "\""

def renderAll (ms : List Matcher) : String :=
  " ".intercalate (((sort ms).filter fun m => m.value ≠ "").map render)

end LogQuery.LineFilter
