/-!
# Quoted literals

Raw text inside a double-quoted literal of the query language. Escaping takes three passes; the
backslashes go first, so that no pass touches what another has written.
-/

namespace LogQuery.Literal

/-- Every `c` of the text replaced. -/
def replaceChar (c : Char) (replacement : List Char) (cs : List Char) : List Char :=
  cs.flatMap fun d => if d = c then replacement else [d]

def escapeChars (cs : List Char) : List Char :=
  replaceChar '"' ['\\', '"'] (replaceChar '\n' ['\\', 'n'] (replaceChar '\\' ['\\', '\\'] cs))

/-- Backslashes, newlines and double quotes are escaped, all else stands for itself. -/
def escape (s : String) : String := String.ofList (escapeChars s.toList)

/-- The characters with a meaning of their own in a regular expression. -/
def isMeta (c : Char) : Bool :=
  c ∈ ['*', '+', '?', '(', ')', '|', '\\', '.', '[', ']', '\x7b', '\x7d', '^', '$']

def escapeMeta (cs : List Char) : List Char :=
  cs.flatMap fun c => if isMeta c then ['\\', c] else [c]

/-- A regular expression that matches the text itself. -/
def regexEscape (s : String) : String := String.ofList (escapeMeta s.toList)

/-- Text to be matched literally by a regular expression in a quoted literal. -/
def escapeForRegex (s : String) : String := escape (regexEscape s)

def quote (s : String) : String := "\"" ++ escape s ++ "\""

end LogQuery.Literal
