/-!
# Wildcard searches

A plain search text becomes a regular expression that finds it anywhere and in any case.
-/

namespace LogQuery.Wildcard

def opening : String := "(?i).*"

def closing : String := ".*"

/-- The expression that any value matches. -/
def anything : String := ".+"

/-- A text that is wrapped already, or matches anything, stays as it is. -/
def wrap (s : String) : String :=
  if s = anything then s
  else if opening.toList.isPrefixOf s.toList then s
  else opening ++ s ++ closing

/-- The opening and the closing may share their last characters; then nothing is left. -/
def unwrap (s : String) : String :=
  let cs := s.toList
  if opening.toList.isPrefixOf cs && closing.toList.isSuffixOf cs then
    String.ofList ((cs.take (cs.length - closing.length)).drop opening.length)
  else s

end LogQuery.Wildcard
