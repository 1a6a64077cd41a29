import LogQuery.QuerySpec
import LogQuery.Proofs.Codec
/-!
# What overrides reach

A query is read from the members that are left when all are set: the value under an
alias, or else the one under the plain name, or else a default (`read_eq_ok`).  What
is set last counts, but only against the spelling under which it is set.  So the
expression and the data source, which have no alias, are out of reach of overrides,
while the primary label is set under its plain name and its alias is left open: it is
the one that was asked for if and only if the overrides give no other under the alias
(`fixed_parts_kept_iff`).
-/

namespace LogQuery

open Schema Codec Fields
open Json (Members)

/-- A text that may be missing, as JSON. -/
def Json.ofText? : Option String → Json
  | none => .null
  | some s => .string s

namespace QuerySpec

variable {expr resource primaryLabel : Json} {overrides ms : Members} {q : QuerySpec}

/-! ### Reading -/

theorem read_nullableText_eq_ok {v : Json} {o : Option String} :
    (nullable string).read v = .ok o ↔ v = Json.ofText? o := by
  cases v <;> cases o <;> simp [nullable, string, Checked.reject, Checked.map, Json.ofText?]

/-- The value of a setting with two spellings: under the alias, or else under the plain
name, or else the default. -/
def setting (ms : Members) (plain aliasName : String) (default : Json) : Json :=
  ((Members.find? ms aliasName).or (Members.find? ms plain)).getD default

/-- The query has the settings that any caller may override, with `refId` where the
members have no other. -/
def HasSettings (ms : Members) (refId : Json) (q : QuerySpec) : Prop :=
  setting ms "ref_id" "refId" refId = .string q.refId
    ∧ setting ms "query_type" "queryType" (.string "range") = .string q.queryType
    ∧ setting ms "editor_mode" "editorMode" (.string "code") = .string q.editorMode
    ∧ setting ms "supporting_query_type" "supportingQueryType" (.string "grafana-lokiexplore-app")
      = .string q.supportingQueryType

/-- **The query that is read from members.** -/
theorem read_eq_ok :
    codec.read (.object ms) = .ok q ↔ HasSettings ms (.string "A") q
      ∧ Members.find? ms "expr" = some (.string q.expr)
      ∧ (Members.find? ms "resource").getD .null = Json.ofText? q.resource
      ∧ setting ms "primary_label" "primaryLabel" .null = Json.ofText? q.primaryLabel
      ∧ (nullable dictionary).read ((Members.find? ms "datasource").getD .null)
        = .ok q.datasource := by
  have htext : ∀ {plain aliasName text s}, (aliased plain aliasName string text).read ms = .ok s
      ↔ setting ms plain aliasName (.string text) = .string s := fun {_ _ text _} =>
    (read_field_eq_ok (v := .string text) rfl).trans read_string_eq_ok
  have hnullable : ∀ {plain aliasName o}, (aliased plain aliasName (nullable string) none).read ms
      = .ok o ↔ setting ms plain aliasName .null = Json.ofText? o :=
    (read_field_eq_ok (v := .null) rfl).trans read_nullableText_eq_ok
  have hexpr : ∀ {s}, (required "expr" string).read ms = .ok s
      ↔ Members.find? ms "expr" = some (.string s) := by
    intro s
    rw [required, read_required_eq_ok, Name.value?_plain]
    simp only [read_string_eq_ok, exists_eq_right]
  have hresource : ∀ {o}, (Fields.optional "resource" (nullable string) none).read ms = .ok o
      ↔ (Members.find? ms "resource").getD .null = Json.ofText? o := by
    intro o
    rw [Fields.optional, read_field_eq_ok (v := .null) rfl, read_nullableText_eq_ok,
      Name.value?_plain]
  have hdatasource : ∀ {o},
      (Fields.optional "datasource" (nullable dictionary) none).read ms = .ok o
        ↔ (nullable dictionary).read ((Members.find? ms "datasource").getD .null) = .ok o := by
    intro o
    rw [Fields.optional, read_field_eq_ok (v := .null) rfl, Name.value?_plain]
  simp only [codec, Fields.model, Fields.map, Fields.pair, Checked.map_eq_ok, Checked.both_eq_ok,
    htext, hnullable, hexpr, hresource, hdatasource]
  constructor
  · rintro ⟨⟨refId, queryType, editorMode, supporting, expr, resource, primaryLabel, datasource⟩,
      ⟨hrefId, hqueryType, heditorMode, hsupporting, hrest⟩, rfl⟩
    exact ⟨⟨hrefId, hqueryType, heditorMode, hsupporting⟩, hrest⟩
  · rintro ⟨⟨hrefId, hqueryType, heditorMode, hsupporting⟩, hrest⟩
    exact ⟨(q.refId, q.queryType, q.editorMode, q.supportingQueryType, q.expr, q.resource,
      q.primaryLabel, q.datasource), ⟨hrefId, hqueryType, heditorMode, hsupporting, hrest⟩, rfl⟩

/-! ### Overrides -/

/-- **A query of an expression**: all but the expression can be overridden. -/
theorem ofExpression_eq_ok :
    ofExpression expr overrides = .ok q ↔ HasSettings overrides (.string "A") q
      ∧ expr = .string q.expr
      ∧ (Members.find? overrides "resource").getD .null = Json.ofText? q.resource
      ∧ setting overrides "primary_label" "primaryLabel" .null = Json.ofText? q.primaryLabel
      ∧ (nullable dictionary).read ((Members.find? overrides "datasource").getD .null)
        = .ok q.datasource := by
  rw [ofExpression, read_eq_ok]
  simp [HasSettings, setting, Members.find?_set]

/-- **A query of a resource**: an override of the primary label counts under the alias,
none counts for the expression and the data source. -/
theorem ofResource_eq_ok :
    ofResource expr resource primaryLabel overrides = .ok q ↔ HasSettings overrides resource q
      ∧ expr = .string q.expr
      ∧ (Members.find? overrides "resource").getD resource = Json.ofText? q.resource
      ∧ (Members.find? overrides "primaryLabel").getD primaryLabel = Json.ofText? q.primaryLabel
      ∧ q.datasource = some [("uid", "$\x7bds\x7d")] := by
  have hsource : ∀ {o}, (nullable dictionary).read variableSource = .ok o
      ↔ o = some [("uid", "$\x7bds\x7d")] := by
    intro o
    have hread : (nullable dictionary).read variableSource
        = .ok (some [("uid", "$\x7bds\x7d")]) := rfl
    rw [hread, Checked.ok.injEq, eq_comm]
  have hnone : ∀ name, Members.find? [] name = none := fun _ => rfl
  rw [ofResource, read_eq_ok]
  simp [HasSettings, setting, Members.find?_set, Members.find?_foldl_set, Members.find?_cons,
    hnone, hsource]

/-- **Overrides reach the primary label alone.**  Of a query of a resource that is
accepted the expression and the data source are as they are set, and the primary label
is if and only if the overrides have no other under its alias; of a query of an
expression, the expression is as it is set. -/
theorem fixed_parts_kept_iff (expr resource primaryLabel : Json) (overrides : Members) :
    (∀ q, ofResource expr resource primaryLabel overrides = .ok q →
      expr = .string q.expr ∧ q.datasource = some [("uid", "$\x7bds\x7d")]
      ∧ (primaryLabel = Json.ofText? q.primaryLabel
        ↔ ∀ v, Members.find? overrides "primaryLabel" = some v → v = primaryLabel))
    ∧ ∀ q, ofExpression expr overrides = .ok q → expr = .string q.expr := by
  constructor
  · intro q h
    obtain ⟨-, hexpr, -, hlabel, hsource⟩ := ofResource_eq_ok.mp h
    refine ⟨hexpr, hsource, ?_⟩
    rw [← hlabel]
    cases hfind : Members.find? overrides "primaryLabel" with
    | none => simp
    | some v => simp [eq_comm]
  · intro q h
    exact (ofExpression_eq_ok.mp h).2.1

/-- Overrides in both spellings, of a fixed part too, and an unknown name. -/
def foreignSource : Members :=
  [("datasource", .object [("uid", .string "other")]), ("editor_mode", .string "builder"),
    ("primaryLabel", .string "app"), ("refId", .string "C"), ("ref_id", .string "B"),
    ("unknown", .null)]

def volumeQuery : QuerySpec where
  refId := "C"
  editorMode := "builder"
  expr := "\x7b\x7d"
  resource := some "volume"
  primaryLabel := some "app"
  datasource := some [("uid", "$\x7bds\x7d")]

theorem fixed_parts_kept_iff_foreignSource :
    ofResource (.string "\x7b\x7d") (.string "volume") (.string "app") foreignSource
        = .ok volumeQuery
      ∧ (∀ v, Members.find? foreignSource "primaryLabel" = some v → v = .string "app")
      ∧ volumeQuery.datasource = some [("uid", "$\x7bds\x7d")]
      ∧ Json.string "app" = Json.ofText? volumeQuery.primaryLabel
      ∧ ∃ q, ofExpression (.string "\x7b\x7d") foreignSource = .ok q
        ∧ Json.string "\x7b\x7d" = .string q.expr := by
  have hresource : ofResource (.string "\x7b\x7d") (.string "volume") (.string "app") foreignSource
      = .ok volumeQuery := rfl
  have hexpression : ofExpression (.string "\x7b\x7d") foreignSource
      = .ok { volumeQuery with resource := none, datasource := some [("uid", "other")] } := rfl
  have hsame : ∀ v, Members.find? foreignSource "primaryLabel" = some v → v = .string "app" :=
    fun v hv => (Option.some.inj hv).symm
  obtain ⟨hkept, hexpr⟩ :=
    fixed_parts_kept_iff (.string "\x7b\x7d") (.string "volume") (.string "app") foreignSource
  obtain ⟨-, hsource, hlabel⟩ := hkept _ hresource
  exact ⟨hresource, hsame, hsource, hlabel.mpr hsame, _, hexpression, hexpr _ hexpression⟩

/-- An override under the alias takes the place of the primary label. -/
theorem primaryLabel_of_alias :
    ofResource (.string "\x7b\x7d") (.string "volume") (.string "app")
        [("primaryLabel", .string "pod")]
      = .ok { refId := "volume", expr := "\x7b\x7d", resource := some "volume",
              primaryLabel := some "pod", datasource := some [("uid", "$\x7bds\x7d")] } := by
  rfl

end QuerySpec

end LogQuery
