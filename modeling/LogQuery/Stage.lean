import LogQuery.Grouping
/-!
# Pipeline stages

Metadata and field filters are stages after the selector: a stage per group of inclusive matchers,
then one per exclusive matcher, then one per numeric comparison. Levels are a single stage.
-/

namespace LogQuery.Stage

def stage (condition : String) : String := "| " ++ condition

/-- Matchers any of which may hold. -/
def ofGroup (g : Group) : String := stage (" or ".intercalate (g.2.map Matcher.render))

def ofMatcher (m : Matcher) : String := stage m.render

/-- The exclusive matchers follow group by group. -/
def metadata (ms : List Matcher) : String :=
  let groups := Groups.ofMatchers ms
  " ".intercalate (groups.positive.map ofGroup ++ groups.exclusive.map ofMatcher)

/-- The exclusive matchers follow in their own order. Numeric comparisons come last, neither grouped
nor quoted. -/
def fields (ms : List Matcher) : String :=
  let numeric := ms.filter Matcher.isNumeric
  let rest := ms.filter fun m => !m.isNumeric
  " ".intercalate ((Groups.ofMatchers rest).positive.map ofGroup
    ++ (rest.filter Matcher.isExclusive).map ofMatcher
    ++ numeric.map fun m => stage m.renderBare)

/-- The key under which levels are detected. -/
def levelKey : String := "detected_level"

/-- Any of the levels, in a raw literal. -/
def levels (ms : List Matcher) : String :=
  if ms = [] then ""
  else stage (levelKey ++ Operator.matching.symbol ++ "`"
    ++ Text.alternation (ms.map Matcher.value) ++ "`")

end LogQuery.Stage
