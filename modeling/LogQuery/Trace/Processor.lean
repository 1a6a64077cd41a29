import LogQuery.Text.Letter
/-!
# Filtering spans

What the instrumentation reports about spans is passed on to the exporter, except for the end of a
span that only sends a piece of a response.
-/

namespace LogQuery.Trace

inductive Event
  | started (name : String)
  | ended (name : String)
  | shutdown
  | flush (timeoutMillis : Int)
  deriving DecidableEq, Repr

/-- Whether the characters of `part` stand in a row in `cs`. -/
def contains (part : List Char) : List Char → Bool
  | [] => part.isEmpty
  | c :: cs => part.isPrefixOf (c :: cs) || contains part cs

/-- In the name of a span that sends a piece of a response, in any case. -/
def noisyPhrase : String := "http send"

def isNoisy (name : String) : Bool := contains noisyPhrase.toList (Text.lower name).toList

/-- What is passed on of an event. -/
def forwarded : Event → List Event
  | .ended name => if isNoisy name then [] else [.ended name]
  | e => [e]

/-- How long a flush may take where nothing is said. -/
def defaultTimeout : Int := 30000

end LogQuery.Trace
