import LogQuery.Filter
import LogQuery.Schema.Codec
/-!
# Codecs of the filters
-/

namespace LogQuery

open Schema Codec Fields

namespace Schema

def parser : Codec Parser := choice Parser.all Parser.name

def patternMode : Codec PatternMode := choice PatternMode.all PatternMode.name

end Schema

def FieldOrigin.codec : Codec FieldOrigin :=
  ((optional "parser" (nullable Schema.parser) none).map FieldOrigin.mk FieldOrigin.parser).model

def Filter.fields : Fields Filter :=
  (pair (required "key" string) <|
    pair (required "operator" string) <|
    pair (optional "value" string "") <|
    pair (aliased "value_labels" "valueLabels" (nullable (list string)) none) <|
    optional "meta" (nullable FieldOrigin.codec) none).map
    (fun (key, operator, value, valueLabels, origin) =>
      ⟨⟨key, operator, value⟩, valueLabels, origin⟩)
    (fun f => (f.key, f.operator, f.value, f.valueLabels, f.origin))

def Filter.codec : Codec Filter := Filter.fields.model

def FieldValue.codec : Codec FieldValue :=
  ((pair (required "value" string) <| optional "parser" Schema.parser .mixed).map
    (fun (value, parser) => ⟨value, parser⟩) (fun v => (v.value, v.parser))).model

def FieldFilter.codec : Codec FieldFilter :=
  ((pair (required "key" string) <| pair (required "operator" string) <|
    required "value" FieldValue.codec).map
    (fun (key, operator, value) => ⟨key, operator, value⟩)
    (fun f => (f.key, f.operator, f.value))).model

def Pattern.codec : Codec Pattern :=
  ((pair (required "pattern" string) <| required "type" Schema.patternMode).map
    (fun (template, mode) => ⟨template, mode⟩) (fun p => (p.template, p.mode))).model

def Suggestion.codec : Codec Suggestion :=
  ((pair (required "text" string) <| optional "value" (nullable string) none).map
    (fun (text, value) => ⟨text, value⟩) (fun s => (s.text, s.value))).model

end LogQuery
