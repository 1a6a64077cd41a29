import LogQuery.Schema.Checked
import LogQuery.Text.Quoted
/-!
# Faults

What can leave an operation instead of a result. None of these is handled by the service itself.
-/

namespace LogQuery

inductive Fault
  /-- A value does not fit the model it is put into. -/
  | invalid (issues : List Schema.Issue)
  /-- A list, or else an object, among values that are looked up in a set. -/
  | compound (isList : Bool)
  /-- A control character in the address of a lookup. -/
  | controlCharacter (c : Char) (position : Nat)
  /-- The address of a lookup has too many characters. -/
  | tooLong
  /-- A time of the local clock with no day before it. -/
  | noDayBefore
  /-- No room on the stack for a list, or else an object, in an answer of the store. -/
  | tooDeep (isList : Bool)
  /-- A string that is no text cannot be written. -/
  | unencodable
  deriving DecidableEq, Repr

def Fault.message : Fault → String
  | invalid _ => "invalid value"
  | compound isList => "unhashable type: '" ++ (if isList then "list" else "dict") ++ "'"
  | controlCharacter c position =>
    "Invalid non-printable ASCII character in URL, " ++ Text.quoted (String.singleton c)
      ++ " at position " ++ toString position ++ "."
  | tooLong => "URL too long"
  | noDayBefore => "year 0 is out of range"
  | tooDeep isList =>
    "maximum recursion depth exceeded while decoding a JSON "
      ++ (if isList then "array" else "object") ++ " from a unicode string"
  | unencodable => "surrogates not allowed"

end LogQuery
