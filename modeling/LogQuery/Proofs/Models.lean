import LogQuery.Envelope
import LogQuery.Lookup
import LogQuery.Schema.Request
import LogQuery.Proofs.Envelope
import LogQuery.Proofs.Timestamp
/-!
# Models are read as they are written

Every codec of a model is lawful, for its fields have names of their own and a field
is left out only for its default.  So what was made of some input is made again of
what is written for it, under the aliases or the plain names, with or without nulls
(`inverse_models`): of the JSON value, and of its text.
-/

namespace LogQuery

open Schema Codec Fields

variable {k n : Nat}

/-! ### Parts -/

namespace Schema

theorem year_ne_zero_of_readTimeText {s : String} {t : Time.Timestamp}
    (h : readTimeText s = .ok t) : t.date.year ≠ 0 := by
  unfold readTimeText at h
  split at h
  · rename_i hread
    cases h
    exact Time.year_ne_zero_of_read hread
  · cases h
  · cases h

theorem year_ne_zero_of_readUnixTime {u : Time.UnixTime} {t : Time.Timestamp}
    (h : readUnixTime u = .ok t) : t.date.year ≠ 0 := by
  unfold readUnixTime at h
  split at h
  · rename_i hread
    cases h
    exact Time.year_ne_zero_of_ofUnix hread
  · cases h

theorem year_ne_zero_of_admits {t : Time.Timestamp} (h : timestamp.Admits t) :
    t.date.year ≠ 0 := by
  obtain ⟨v, hv⟩ := h
  simp only [timestamp] at hv
  split at hv
  · exact year_ne_zero_of_readTimeText hv
  · split at hv
    · cases hv
    · exact year_ne_zero_of_readUnixTime hv
  · unfold readUnixDecimal at hv
    split at hv
    · cases hv
    · exact year_ne_zero_of_readUnixTime hv
  · cases hv
  · cases hv

theorem lawful_timestamp : timestamp.Lawful k n := by
  constructor
  · intro t ht style
    have hwrite : timestamp.write style t = .string t.text := rfl
    have hread : ∀ s, timestamp.read (.string s) = readTimeText s := fun _ => rfl
    rw [hwrite, hread, readTimeText, Time.read_text t (year_ne_zero_of_admits ht)]
  · exact fun _ _ => .string

theorem present_timestamp : timestamp.Present := fun _ _ => rfl

theorem lawful_parserName : Schema.parser.Lawful k n := lawful_choice (by decide)

theorem lawful_modeName : patternMode.Lawful k n := lawful_choice (by decide)

end Schema

/-! ### Fields of many models -/

theorem lawful_requiredText {name : String} :
    (required name string).Lawful (Name.all ⟨name, none⟩) k n :=
  lawful_required lawful_string present_string

theorem lawful_optionalText {name : Name} {text : String} :
    (field name string (some text)).Lawful name.all k n :=
  lawful_optional lawful_string present_string ⟨.string text, rfl⟩

theorem lawful_nullableText {name : Name} :
    (field name (nullable string) (some none)).Lawful name.all k n :=
  Fields.lawful_nullable lawful_string present_string

/-- A list that is empty if it is left out. -/
theorem lawful_optionalList {name : String} {α : Type} {c : Codec α} (hc : c.Lawful k n) :
    (Fields.optional name (list c) []).Lawful (Name.all ⟨name, none⟩) k (n + 1) :=
  lawful_optional (lawful_list hc) present_list ⟨.array [], rfl⟩

/-! ### Models -/

theorem FieldOrigin.lawful : FieldOrigin.codec.Lawful k (n + 1) :=
  lawful_model <| lawful_map (fun _ => rfl) <|
    Fields.lawful_nullable lawful_parserName present_choice

theorem Filter.lawful : Filter.codec.Lawful k (n + 2) :=
  lawful_model <| lawful_map (fun _ => rfl) <|
    lawful_pair (by decide) lawful_requiredText <|
    lawful_pair (by decide) lawful_requiredText <|
    lawful_pair (by decide) lawful_optionalText <|
    lawful_pair (by decide) (Fields.lawful_nullable (lawful_list lawful_string) present_list) <|
    Fields.lawful_nullable FieldOrigin.lawful present_model

theorem FieldValue.lawful : FieldValue.codec.Lawful k (n + 1) :=
  lawful_model <| lawful_map (fun _ => rfl) <|
    lawful_pair (by decide) lawful_requiredText <|
    lawful_optional lawful_parserName present_choice ⟨.string "mixed", rfl⟩

theorem FieldFilter.lawful : FieldFilter.codec.Lawful k (n + 2) :=
  lawful_model <| lawful_map (fun _ => rfl) <|
    lawful_pair (by decide) lawful_requiredText <|
    lawful_pair (by decide) lawful_requiredText <|
    lawful_required FieldValue.lawful present_model

theorem Pattern.lawful : Pattern.codec.Lawful k (n + 1) :=
  lawful_model <| lawful_map (fun _ => rfl) <|
    lawful_pair (by decide) lawful_requiredText <|
    lawful_required lawful_modeName present_choice

theorem QuerySpec.lawful : QuerySpec.codec.Lawful k (n + 2) :=
  lawful_model <| lawful_map (fun _ => rfl) <|
    lawful_pair (by decide) lawful_optionalText <|
    lawful_pair (by decide) lawful_optionalText <|
    lawful_pair (by decide) lawful_optionalText <|
    lawful_pair (by decide) lawful_optionalText <|
    lawful_pair (by decide) lawful_requiredText <|
    lawful_pair (by decide) lawful_nullableText <|
    lawful_pair (by decide) lawful_nullableText <|
    Fields.lawful_nullable lawful_dictionary present_dictionary

theorem SpecChanges.lawful : SpecChanges.codec.Lawful k (n + 1) :=
  lawful_closedModel <| lawful_map (fun _ => rfl) <|
    lawful_pair (by decide) lawful_nullableText <|
    lawful_pair (by decide) lawful_nullableText <|
    lawful_pair (by decide) lawful_nullableText <|
    lawful_nullableText

theorem TimeWindow.lawful : TimeWindow.codec.Lawful k (n + 1) :=
  lawful_model <| lawful_map (fun _ => rfl) <|
    lawful_pair (by decide) (lawful_required lawful_timestamp present_timestamp) <|
    lawful_required lawful_timestamp present_timestamp

theorem CompileOrder.lawful : CompileOrder.codec.Lawful k (n + 4) :=
  lawful_model <| lawful_map (fun _ => rfl) <|
    lawful_pair (by decide) (lawful_optionalList Filter.lawful) <|
    lawful_pair (by decide) (lawful_optionalList Filter.lawful) <|
    lawful_pair (by decide) (lawful_optionalList Filter.lawful) <|
    lawful_pair (by decide) (lawful_optionalList Filter.lawful) <|
    lawful_pair (by decide) (lawful_optionalList Pattern.lawful) <|
    lawful_pair (by decide) (lawful_optionalList Filter.lawful) <|
    lawful_optional SpecChanges.lawful present_closedModel ⟨.object [], rfl⟩

theorem LabelLookup.lawful : LabelLookup.codec.Lawful k (n + 4) :=
  lawful_model <| lawful_map (fun _ => rfl) <|
    lawful_pair (by decide) (lawful_required Filter.lawful present_model) <|
    lawful_pair (by decide) (lawful_optionalList Filter.lawful) <|
    lawful_pair (by decide) lawful_optionalText <|
    Fields.lawful_nullable TimeWindow.lawful present_model

theorem FieldLookup.lawful : FieldLookup.codec.Lawful 4 (n + 4) :=
  have hlimit : (integerBetween 1 5000).Lawful 4 (n + 3) :=
    lawful_integerBetween (by decide) (by decide)
  lawful_model <| lawful_map (fun _ => rfl) <|
    lawful_pair (by decide) (lawful_required Filter.lawful present_model) <|
    lawful_pair (by decide) (lawful_optionalList Filter.lawful) <|
    lawful_pair (by decide) lawful_requiredText <|
    lawful_pair (by decide) lawful_optionalText <|
    lawful_pair (by decide) (lawful_optional hlimit present_integerBetween ⟨.int 1000, rfl⟩) <|
    Fields.lawful_nullable TimeWindow.lawful present_model

theorem FavoriteOrder.lawful : FavoriteOrder.codec.Lawful k (n + 2) :=
  lawful_model <| lawful_map (fun _ => rfl) <|
    lawful_required (lawful_nonEmptyList lawful_string) present_nonEmptyList

/-! ### Reading what was written -/

/-- What the codec makes of an input is made again of what is written for it, in every style: of the
JSON value, and of its text by the reader of envelopes and by that of bodies. -/
def Schema.Codec.Inverse {α : Type} (c : Codec α) : Prop :=
  ∀ v a, c.read v = .ok a → ∀ style,
    c.read (c.write style a) = .ok a
      ∧ ∀ l ∈ [Envelope.limits, Lookup.bodyLimits],
          Json.read l ((c.write style a).render Json.compact) = .ok (c.write style a)

/-- In a body a short number is taken, and nothing is too deep. -/
theorem Lookup.bodyLimits_allows (n : Nat) {k : Nat} (hk : k < 4300) :
    Lookup.bodyLimits.Allows k n where
  depth := nofun
  stack := nofun
  admits cs hcs := decide_eq_true (.inr ((List.length_filter_le _ cs).trans (hcs.trans hk)))

theorem Schema.Codec.Lawful.inverse {α : Type} {c : Codec α} (h : c.Lawful 4 n) (hn : n ≤ 200) :
    c.Inverse := by
  intro v a hread style
  have hadmits : c.Admits a := ⟨v, hread⟩
  refine ⟨h.read_write hadmits style, List.forall_mem_cons.mpr ⟨?_, ?_⟩⟩
  · exact (h.plain hadmits style).read_render (by decide) (Envelope.limits_allows (by decide) hn)
  · exact List.forall_mem_singleton.mpr <|
      (h.plain hadmits style).read_render (by decide) (Lookup.bodyLimits_allows n (by decide))

/-- **Models are read as they are written.** -/
theorem inverse_models :
    Filter.codec.Inverse ∧ FieldOrigin.codec.Inverse ∧ FieldValue.codec.Inverse
    ∧ FieldFilter.codec.Inverse ∧ Pattern.codec.Inverse ∧ QuerySpec.codec.Inverse
    ∧ TimeWindow.codec.Inverse ∧ SpecChanges.codec.Inverse ∧ CompileOrder.codec.Inverse
    ∧ LabelLookup.codec.Inverse ∧ FieldLookup.codec.Inverse ∧ FavoriteOrder.codec.Inverse :=
  ⟨(Filter.lawful (n := 0)).inverse (by decide), (FieldOrigin.lawful (n := 0)).inverse (by decide),
    (FieldValue.lawful (n := 0)).inverse (by decide),
    (FieldFilter.lawful (n := 0)).inverse (by decide), (Pattern.lawful (n := 0)).inverse (by decide),
    (QuerySpec.lawful (n := 0)).inverse (by decide), (TimeWindow.lawful (n := 0)).inverse (by decide),
    (SpecChanges.lawful (n := 0)).inverse (by decide),
    (CompileOrder.lawful (n := 0)).inverse (by decide),
    (LabelLookup.lawful (n := 0)).inverse (by decide),
    (FieldLookup.lawful (n := 0)).inverse (by decide),
    (FavoriteOrder.lawful (n := 0)).inverse (by decide)⟩

/-- A lookup with a window from a time at an offset of five and a half hours to a Unix time. -/
def lookupBody : Json :=
  .object [
    ("filter", .object [("key", .string "app"), ("operator", .string "="),
      ("valueLabels", .array [.string "App"]), ("meta", .object [("parser", .null)])]),
    ("time_range", .object [("start", .string "2024-07-19 12:00:00.5+0530"),
      ("end", .int 1721390400)])]

def noon : Time.Timestamp :=
  { Time.Timestamp.midnight ⟨2024, 7, 19, by decide, by decide, by decide⟩ with
    hour := ⟨12, by decide⟩ }

def bodyLookup : LabelLookup where
  filter := ⟨⟨"app", "=", ""⟩, some ["App"], some ⟨none⟩⟩
  filters := []
  datasource := "default"
  window := some {
    start := { noon with micro := ⟨500000, by decide⟩, offset := some ⟨330, by decide⟩ }
    stop := { noon with offset := some Time.Offset.utc } }

theorem inverse_models_bodyLookup :
    LabelLookup.codec.read lookupBody = .ok bodyLookup
      ∧ ∀ style, LabelLookup.codec.read (LabelLookup.codec.write style bodyLookup)
          = .ok bodyLookup := by
  have hread : LabelLookup.codec.read lookupBody = .ok bodyLookup := by decide +kernel
  obtain ⟨-, -, -, -, -, -, -, -, -, hlookup, -, -⟩ := inverse_models
  exact ⟨hread, fun style => (hlookup _ _ hread style).1⟩

end LogQuery
