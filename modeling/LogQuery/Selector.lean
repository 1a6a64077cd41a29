import LogQuery.Grouping
import LogQuery.Text.Blank
/-!
# Stream selectors

The selector is the part in braces: matchers on labels. Its body collapses the inclusive matchers of
a key into one alternation and lists the exclusive ones.
-/

namespace LogQuery.Selector

def renderPositive : Group → String
  | (_, [m]) => m.render
  | (key, ms) => Matcher.renderAlternation key Operator.matching.symbol (ms.map Matcher.value)

def isPadding (c : Char) : Bool := c = ' ' || c = ','

/-- The two classes of matchers are put together with a separator, also where one is empty; what
is left over at the ends is trimmed. -/
def body (ms : List Matcher) : String :=
  let groups := Groups.ofMatchers ms
  let positive := ", ".intercalate (groups.positive.map renderPositive)
  let negative := ", ".intercalate (groups.exclusive.map Matcher.render)
  String.ofList (Text.trim isPadding (positive ++ ", " ++ negative).toList)

/-- Matchers in braces, one by one; nothing if there are none. -/
def ofMatchers (ms : List Matcher) : String :=
  if ms = [] then "" else "\x7b" ++ ", ".intercalate (ms.map Matcher.render) ++ "\x7d"

/-- The selector of every stream. -/
def all : String := "\x7bjob=~\".+\"\x7d"

/-! ## A dangling comma -/

/-- What follows a comma and a closing brace with blanks before, between and after, if `cs` starts
like that. -/
def dangling? (cs : List Char) : Option (List Char) :=
  match cs.dropWhile Text.isBlank with
  | ',' :: rest => match rest.dropWhile Text.isBlank with
    | '\x7d' :: rest => some rest
    | _ => none
  | _ => none

def dropDanglingChars : List Char → List Char
  | [] => []
  | c :: cs => match dangling? (c :: cs) with
    | some rest => '\x7d' :: rest
    | none => c :: dropDanglingChars cs

/-- `s` without the first comma that stands before a closing brace. Quotes are not looked at. -/
def dropDangling (s : String) : String := String.ofList (dropDanglingChars s.toList)

end LogQuery.Selector
