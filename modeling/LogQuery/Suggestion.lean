import LogQuery.Envelope
import LogQuery.Fault
/-!
# Suggestions

The values found for a filter become suggestions: those in use are dropped, favorites come first,
and values of fields are put into envelopes. A value found may be any JSON value.
-/

namespace LogQuery.Suggestion

/-- Whether a text is among the values that the matcher selects by equality or alternation. -/
def selects (m : Matcher) (text : String) : Bool :=
  if m.isRegex then text ∈ Text.alternatives m.value
  else m.operator = Operator.equal.symbol && m.value = text

def isSelected (ms : List Matcher) : Json → Bool
  | .string s => ms.any (selects · s)
  | _ => false

def isIn (xs : List String) : Json → Bool
  | .string s => s ∈ xs
  | _ => false

/-- The first list or object among the values: it cannot be looked up in a set. -/
def compound? (values : List Json) : Option Fault :=
  values.findSome? fun
    | .array _ => some (.compound true)
    | .object _ => some (.compound false)
    | _ => none

/-- The favorites first, each part in the order of `values`. -/
def sortByFavorites (values : List Json) (favorites : List String) : Except Fault (List Json) :=
  if favorites = [] then .ok values
  else match compound? values with
    | some fault => .error fault
    | none => .ok (values.filter (isIn favorites) ++ values.filter fun v => !isIn favorites v)

/-- The values of a label without those that a filter on the key selects. -/
def ofLabel (values : List Json) (ms : List Matcher) (key : String) (favorites : List String) :
    Except Fault (List Json) :=
  let used := ms.filter (·.key = key)
  sortByFavorites (values.filter fun v => !isSelected used v) favorites

/-! ## Fields -/

/-- The variable whose values are offered as they are. -/
def levelVariable : String := "levels"

/-- The values that a filter has in use. Its label, if it has one, stands for its value. -/
def valuesInUse (f : Filter) : List String :=
  let value := match f.valueLabels with
    | some (label :: _) => label
    | _ => f.value
  if f.isRegex then Text.alternatives value else [value]

/-- The text of a suggestion, which goes into the member `name` of it. -/
def suggestedText (name : String) (v : Json) : Except Fault String :=
  if v.isUnpaired then .error .unencodable
  else match Schema.Codec.string.read v with
    | .ok text => .ok text
    | .rejected issues => .error (.invalid (issues.map (Schema.Issue.within name)))

/-- A plain suggestion of the value, which must be a text. -/
def plain (v : Json) : Except Fault Suggestion :=
  (suggestedText "text" v).map fun text => ⟨text, none⟩

/-- Plain suggestions. It is only when they are written, after all are made, that a string turns out
to be no text. -/
def plains (values : List Json) : Except Fault (List Suggestion) := do
  let _ ← (values.filter fun v => !v.isUnpaired).mapM plain
  values.mapM plain

/-- A suggestion that sets the filter to an envelope, which is written at once. -/
def enveloped (parser : Parser) (v : Json) : Except Fault Suggestion :=
  (suggestedText "value" v).map fun text => ⟨text, some (Envelope.encode ⟨text, parser⟩)⟩

/-- The parser of the edited filter: that of its value, or without one that of its origin. -/
def parserOf (edited : Filter) : Parser :=
  if edited.value ≠ "" then (Envelope.decode edited.value).parser
  else edited.parser?.getD .mixed

/-- Whether the edited filter's value is decoded for suggestions of this variable. -/
def decodesValue (edited : Filter) (variableType : String) : Bool :=
  variableType ≠ levelVariable && edited.parser? ≠ some .structuredMetadata && edited.value ≠ ""

def ofField (values : List Json) (fs : List Filter) (edited : Filter) (variableType : String) :
    Except Fault (List Suggestion) :=
  if variableType = levelVariable then plains values
  else match compound? values with
    | some fault => .error fault
    | none =>
      let used := fs.flatMap valuesInUse
      let rest := values.filter fun v => !isIn used v
      if edited.parser? = some .structuredMetadata then plains rest
      else rest.mapM (enveloped (parserOf edited))

/-- The records left by `ofField`: the value of the edited filter may be no envelope. -/
def fieldWarnings (values : List Json) (edited : Filter) (variableType : String) :
    List Log.Record :=
  if decodesValue edited variableType && (compound? values).isNone then
    Envelope.warnings edited.value
  else []

end LogQuery.Suggestion
