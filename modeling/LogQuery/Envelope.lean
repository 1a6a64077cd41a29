import LogQuery.Json.Reader
import LogQuery.Json.Printer
import LogQuery.Schema.Filter
import LogQuery.Log
/-!
# Envelopes

The value of a field filter is an envelope: JSON text with the value and its parser. Reading takes
any spelling of such an object; a text that is none is taken for the value itself, and noted.
-/

namespace LogQuery.Envelope

/-- How deep an envelope may nest, and how many characters a number in it may have before its
fraction and its exponent, with the sign. -/
def limits : Json.Limits where
  depth := some 200
  admits cs := decide ((Number.wholePart cs).length ≤ 4300)

def read? (raw : String) : Option FieldValue :=
  match Json.read limits raw with
  | .ok v => match FieldValue.codec.read v with
    | .ok fv => some fv
    | .rejected _ => none
  | .error _ => none

/-- The value in the envelope. The empty marker, and a text that is no envelope, stand for
themselves. -/
def decode (raw : String) : FieldValue :=
  if raw = emptyMarker then ⟨raw, .mixed⟩ else (read? raw).getD ⟨raw, .mixed⟩

/-- The record left by decoding a text that is no envelope. -/
def warnings (raw : String) : List Log.Record :=
  if raw ≠ emptyMarker ∧ read? raw = none then
    [{ level := .warning, logger := .filters
       message := "Field filter value is not an envelope, using raw value"
       fields := some [("value", .string raw)] }]
  else []

def encode (v : FieldValue) : String := (FieldValue.codec.write {} v).render Json.compact

/-- A filter with its value out of the envelope. -/
def decodeFilter (f : Filter) : FieldFilter := ⟨f.key, f.operator, decode f.value⟩

/-- The matcher of a field filter on the decoded value. -/
def matcher (f : Filter) : Matcher := (decodeFilter f).toMatcher

/-- What a filter is set to when a value is typed in: the envelope, and the label shown for it. -/
structure CustomValue where
  value : String
  valueLabels : List String

/-- An empty label gives way to the value. -/
def custom (value label : Option String) (filter : Option Filter) : CustomValue :=
  let fv : FieldValue := ⟨value.getD "", (filter.bind Filter.parser?).getD .mixed⟩
  let label := label.getD ""
  ⟨encode fv, [if label = "" then fv.value else label]⟩

end LogQuery.Envelope
