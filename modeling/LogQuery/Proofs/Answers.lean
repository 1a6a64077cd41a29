import LogQuery.Proofs.Service
/-!
# Lookups that are answered

A store that fails has no values, and then none are suggested.  So the store can
make a lookup fail only by a value that is no text, or by a body that is nested too
deep, and the client by a key or a window that cannot be sent.  `suggests_iff` says
that nothing else does: whatever the request and the store, a lookup that can be
sent and finds texts is answered.
-/

namespace LogQuery

def Json.IsText (v : Json) : Prop := ∃ text, v = .string text

/-! ### Values that become suggestions -/

namespace Suggestion

theorem exists_texts {values : List Json} (h : ∀ v ∈ values, v.IsText) :
    ∃ texts : List String, values = texts.map .string := by
  induction values with
  | nil => exact ⟨[], rfl⟩
  | cons v values ih =>
    obtain ⟨⟨text, rfl⟩, hvalues⟩ := List.forall_mem_cons.mp h
    obtain ⟨texts, rfl⟩ := ih hvalues
    exact ⟨text :: texts, rfl⟩

theorem isText_of_plain {v : Json} {s : Suggestion} (h : plain v = .ok s) : v.IsText := by
  cases v with
  | string text => exact ⟨text, rfl⟩
  | null | bool | number | unpaired | array | object => cases h

theorem isText_of_enveloped {parser : Parser} {v : Json} {s : Suggestion}
    (h : enveloped parser v = .ok s) : v.IsText := by
  cases v with
  | string text => exact ⟨text, rfl⟩
  | null | bool | number | unpaired | array | object => cases h

/-- Two computations one after the other have a result only if both of them have. -/
theorem exists_of_bind_eq_ok {α β : Type} {x : Except Fault α} {f : α → Except Fault β} {b : β}
    (h : x >>= f = .ok b) : ∃ a, x = .ok a ∧ f a = .ok b := by
  cases x with
  | error fault => cases h
  | ok a => exact ⟨a, rfl, h⟩

/-- Where all values become suggestions each of them does. -/
theorem exists_of_mapM_eq_ok {f : Json → Except Fault Suggestion} {values : List Json}
    {ss : List Suggestion} (h : values.mapM f = .ok ss) : ∀ v ∈ values, ∃ s, f v = .ok s := by
  induction values generalizing ss with
  | nil => exact fun v hv => absurd hv List.not_mem_nil
  | cons v values ih =>
    rw [List.mapM_cons] at h
    obtain ⟨s, hs, hrest⟩ := exists_of_bind_eq_ok h
    obtain ⟨rest, hvalues, -⟩ := exists_of_bind_eq_ok hrest
    exact List.forall_mem_cons.mpr ⟨⟨s, hs⟩, ih hvalues⟩

/-- No filter selects what is no text. -/
theorem isSelected_of_not_isText {ms : List Matcher} {v : Json} (h : ¬ v.IsText) :
    isSelected ms v = false := by
  cases v with
  | string text => exact absurd ⟨text, rfl⟩ h
  | null | bool | number | unpaired | array | object => rfl

theorem isIn_of_not_isText {xs : List String} {v : Json} (h : ¬ v.IsText) :
    isIn xs v = false := by
  cases v with
  | string text => exact absurd ⟨text, rfl⟩ h
  | null | bool | number | unpaired | array | object => rfl

theorem mem_sortByFavorites {values sorted : List Json} {favorites : List String}
    (h : sortByFavorites values favorites = .ok sorted) {v : Json} (hv : v ∈ values) :
    v ∈ sorted := by
  unfold sortByFavorites at h
  split_ifs at h with hnone
  · cases h
    exact hv
  · cases hcompound : compound? values with
    | some fault =>
      rw [hcompound] at h
      cases h
    | none =>
      rw [hcompound] at h
      cases h
      cases hfavorite : isIn favorites v with
      | true => exact List.mem_append_left _ (List.mem_filter.mpr ⟨hv, hfavorite⟩)
      | false =>
        exact List.mem_append_right _
          (List.mem_filter.mpr ⟨hv, congrArg Bool.not hfavorite⟩)

theorem isText_of_plains {values : List Json} {ss : List Suggestion} (h : plains values = .ok ss) :
    ∀ v ∈ values, v.IsText := by
  obtain ⟨_, -, hall⟩ := exists_of_bind_eq_ok h
  intro v hv
  obtain ⟨s, hs⟩ := exists_of_mapM_eq_ok hall v hv
  exact isText_of_plain hs

/-- What suggests texts, of those it is given, and fails on all else. -/
structure TakesTexts (suggestions : List Json → Except Fault (List Suggestion)) : Prop where
  isText : ∀ {values : List Json} {ss : List Suggestion}, suggestions values = .ok ss →
    ∀ v ∈ values, v.IsText
  texts : ∀ texts : List String, ∃ ss, suggestions (texts.map .string) = .ok ss
    ∧ ∀ s ∈ ss, s.text ∈ texts

theorem exists_ofField_texts (texts : List String) (fs : List Filter) (edited : Filter)
    (variableType : String) :
    ∃ ss, ofField (texts.map .string) fs edited variableType = .ok ss
      ∧ ∀ s ∈ ss, s.text ∈ texts := by
  by_cases hvariable : variableType = levelVariable
  · rw [ofField, if_pos hvariable]
    exact ⟨_, plains_texts texts, List.forall_mem_map.mpr fun _ ht => ht⟩
  · refine ⟨_, ofField_dressed texts fs hvariable, List.forall_mem_map.mpr fun t ht => ?_⟩
    rw [text_dress]
    exact List.mem_of_mem_filter ht

theorem isText_of_ofField {values : List Json} {fs : List Filter} {edited : Filter}
    {variableType : String} {ss : List Suggestion}
    (h : ofField values fs edited variableType = .ok ss) : ∀ v ∈ values, v.IsText := by
  intro v hv
  by_contra hno
  have hrest : v ∈ values.filter fun v => !isIn (fs.flatMap valuesInUse) v :=
    List.mem_filter.mpr ⟨hv, congrArg Bool.not (isIn_of_not_isText hno)⟩
  rw [ofField] at h
  by_cases hvariable : variableType = levelVariable
  · rw [if_pos hvariable] at h
    exact hno (isText_of_plains h v hv)
  · rw [if_neg hvariable] at h
    cases hcompound : compound? values with
    | some fault =>
      rw [hcompound] at h
      cases h
    | none =>
      rw [hcompound] at h
      by_cases horigin : edited.parser? = some .structuredMetadata
      · simp only [if_pos horigin] at h
        exact hno (isText_of_plains h v hrest)
      · simp only [if_neg horigin] at h
        obtain ⟨s, hs⟩ := exists_of_mapM_eq_ok h v hrest
        exact hno (isText_of_enveloped hs)

theorem takesTexts_ofField (fs : List Filter) (edited : Filter) (variableType : String) :
    TakesTexts fun values => ofField values fs edited variableType where
  isText := isText_of_ofField
  texts texts := exists_ofField_texts texts fs edited variableType

end Suggestion

/-! ### Reactions -/

namespace Service

open Lookup

/-- The answer with suggestions of some of the texts: for each of them its text, and the value that
the filter is set to if it is another. -/
def Response.SuggestsFrom (r : Response) (texts : List String) : Prop :=
  ∃ ss : List Suggestion, (∀ s ∈ ss, s.text ∈ texts) ∧ r = .answer 200 (.object [
    ("replace", .bool true),
    ("values", .array (ss.map fun s =>
      .object [("text", .string s.text), ("value", s.value.elim .null .string)]))])

def Response.Fails (r : Response) : Prop := ∃ fault, r = .fault fault

theorem isText_of_labelSuggestions {s : Favorites} {l : LabelLookup} {values : List Json}
    {ss : List Suggestion} (h : labelSuggestions s l values = .ok ss) :
    ∀ v ∈ values, v.IsText := by
  intro v hv
  by_contra hno
  obtain ⟨rest, hrest, hplains⟩ := Suggestion.exists_of_bind_eq_ok h
  have hunselected : v ∈ values.filter fun v =>
      !Suggestion.isSelected ((matchers l.filters).filter (·.key = l.filter.key)) v :=
    List.mem_filter.mpr ⟨hv, congrArg Bool.not (Suggestion.isSelected_of_not_isText hno)⟩
  exact hno (Suggestion.isText_of_plains hplains v
    (Suggestion.mem_sortByFavorites hrest hunselected))

theorem mem_offered {l : LabelLookup} {favored texts : List String} {t : String}
    (h : t ∈ offered l favored texts) : t ∈ texts := by
  rw [offered, Suggestion.favoredFirst, List.mem_append] at h
  exact h.elim (fun h => List.mem_of_mem_filter (List.mem_of_mem_filter h))
    fun h => List.mem_of_mem_filter (List.mem_of_mem_filter h)

theorem takesTexts_labelSuggestions (s : Favorites) (l : LabelLookup) :
    Suggestion.TakesTexts (labelSuggestions s l) where
  isText := isText_of_labelSuggestions
  texts texts := ⟨_, labelSuggestions_texts s l texts,
    List.forall_mem_map.mpr fun _ ht => mem_offered ht⟩

section Suggest

variable {span : Span} {o : Outcome (List Json)} {warnings : List Json → List Log.Record}
  {suggestions : List Json → Except Fault (List Suggestion)} {k : Kind} {reply : Reply}

/-- **Texts are suggested.** -/
theorem suggestsFrom_of_lists (htakes : Suggestion.TakesTexts suggestions)
    (hresult : o.result = found k reply) {texts : List String} (h : Lists k reply texts) :
    (suggest span o warnings suggestions).response.SuggestsFrom texts := by
  obtain ⟨ss, hss, hmem⟩ := htakes.texts texts
  refine ⟨ss, hmem, ?_⟩
  rw [← suggestionsBody_eq]
  exact suggest_answer (hresult.trans (found_of_lists h)) hss

/-- **Nothing else is,** and only two replies have something else. -/
theorem fails_iff (htakes : Suggestion.TakesTexts suggestions)
    (hresult : o.result = found k reply) :
    (suggest span o warnings suggestions).response.Fails
      ↔ Exhausts reply ∨ ∃ values, Carries k reply values ∧ ∃ v ∈ values, ¬ v.IsText := by
  constructor
  · rintro ⟨fault, hfault⟩
    by_contra hother
    obtain ⟨hread, htexts⟩ := not_or.mp hother
    -- without the two the reply lists texts, which are suggested
    have hlists : ∃ texts, Lists k reply texts := by
      by_cases hcarries : ∃ values, Carries k reply values
      · obtain ⟨values, hcarries⟩ := hcarries
        obtain ⟨texts, rfl⟩ := Suggestion.exists_texts fun v hv => by
          by_contra hno
          exact htexts ⟨values, hcarries, v, hv, hno⟩
        exact ⟨texts, .listed hcarries⟩
      · exact ⟨[], .nothing (not_exists.mp hcarries) hread⟩
    obtain ⟨texts, hlists⟩ := hlists
    have hsuggests : (suggest span o warnings suggestions).response.SuggestsFrom texts :=
      suggestsFrom_of_lists htakes hresult hlists
    obtain ⟨ss, -, hanswer⟩ := hsuggests
    rw [hfault] at hanswer
    cases hanswer
  · rintro (hexhausts | ⟨values, hcarries, v, hv, hno⟩)
    · obtain ⟨fault, hfound⟩ := found_of_exhausts (k := k) hexhausts
      exact ⟨fault, suggest_fault (hresult.trans hfound)⟩
    · have hvalues := hresult.trans (found_of_carries hcarries)
      cases hss : suggestions values with
      | ok ss => exact absurd (htakes.isText hss v hv) hno
      | error fault =>
        refine ⟨fault, ?_⟩
        rw [suggest, hvalues]
        simp only [hss]

end Suggest

/-! ### Lookups of values -/

/-- A lookup of the values of a label or a field. -/
inductive ValueLookup
  | label (l : LabelLookup)
  | field (l : FieldLookup)

namespace ValueLookup

/-- The question to the store. -/
def inquiry : ValueLookup → Inquiry
  | label l => labelInquiry l
  | field l => .field l.filter.key l.expr l.limit

def kind (l : ValueLookup) : Kind := l.inquiry.kind

def window : ValueLookup → Option TimeWindow
  | label l => l.window
  | field l => l.window

/-- The bounds of the window can be placed in time by a clock that shows UTC. -/
def PlacedByUtcClock (l : ValueLookup) : Prop :=
  ∀ w ∈ l.window, w.start.isPlaced = true ∧ w.stop.isPlaced = true

/-- The client writes the request. -/
def AcceptedBy (l : ValueLookup) (store : Store) : Prop :=
  l.inquiry.AcceptedBy store (l.window.map TimeWindow.start) (l.window.map TimeWindow.stop)

theorem askable_iff {l : ValueLookup} {store : Store} :
    l.inquiry.Askable store (l.window.map TimeWindow.start) (l.window.map TimeWindow.stop)
      ↔ l.PlacedByUtcClock ∧ l.AcceptedBy store := by
  have hplaced : Lookup.PlacedByUtcClock (l.window.map TimeWindow.start)
      (l.window.map TimeWindow.stop) ↔ l.PlacedByUtcClock := by
    rw [Lookup.PlacedByUtcClock, PlacedByUtcClock]
    cases l.window <;> simp
  rw [← hplaced]
  exact ⟨fun h => ⟨h.placed, h.accepted⟩, fun h => ⟨h.1, h.2⟩⟩

def react (c : Config) (store : Store) (s : Favorites) : ValueLookup → Reaction
  | label l => labels c s store l
  | field l => fields c store l

end ValueLookup

/-- The lookup of values that a request asks for. -/
def Request.values? (r : Request) : Option ValueLookup :=
  match r.route? with
  | some .labels => (readBody LabelLookup.codec r.body).order?.map .label
  | some .fields => (readBody FieldLookup.codec r.body).order?.map .field
  | _ => none

theorem step_of_values {r : Request} {l : ValueLookup} (h : r.values? = some l) (c : Config)
    (store : Store) (s : Favorites) : step c store s r = (s, l.react c store s) := by
  unfold Request.values? at h
  split at h
  · rename_i hroute
    obtain ⟨o, horder, rfl⟩ := Option.map_eq_some_iff.mp h
    rw [step_of_route hroute, dispatch, withBody_order (Body.eq_order horder)]
    rfl
  · rename_i hroute
    obtain ⟨o, horder, rfl⟩ := Option.map_eq_some_iff.mp h
    rw [step_of_route hroute, dispatch, withBody_order (Body.eq_order horder)]
    rfl
  · cases h

/-- A lookup is a question to the store whose values become suggestions. -/
theorem ValueLookup.react_eq (l : ValueLookup) (c : Config) (store : Store) (s : Favorites) :
    ∃ span warnings suggestions, Suggestion.TakesTexts suggestions
      ∧ l.react c store s = suggest span
        (l.inquiry.run store c.address (l.window.map TimeWindow.start)
          (l.window.map TimeWindow.stop)) warnings suggestions := by
  cases l with
  | label l => exact ⟨_, _, _, takesTexts_labelSuggestions s l, rfl⟩
  | field l =>
    exact ⟨_, _, _, Suggestion.takesTexts_ofField l.filters l.filter l.variableType, rfl⟩

/-- **When a lookup of values is answered.**  One that can be sent is sent once, and
it is answered with suggestions of the texts that the reply lists; where the store
fails these are none.  It fails exactly if the reply has a list with a value that is
no text, or takes all of the stack to be read.  A lookup that cannot be sent asks
nothing and fails: its window is to be placed, by a local clock that shows UTC, and
its address is to be accepted by the client. -/
theorem suggests_iff {r : Request} {l : ValueLookup} (h : r.values? = some l) (c : Config)
    (store : Store) (s : Favorites) :
    let reaction := (step c store s r).2
    (l.PlacedByUtcClock ∧ l.AcceptedBy store → ∃ q, reaction.trail.requests = [q]
      ∧ (∀ texts, Lists l.kind (store.reply q) texts → reaction.response.SuggestsFrom texts)
      ∧ (reaction.response.Fails ↔ Exhausts (store.reply q)
        ∨ ∃ values, Carries l.kind (store.reply q) values ∧ ∃ v ∈ values, ¬ v.IsText))
    ∧ (¬ (l.PlacedByUtcClock ∧ l.AcceptedBy store) →
      reaction.trail.requests = [] ∧ reaction.response.Fails) := by
  obtain ⟨span, warnings, suggestions, htakes, hreact⟩ := l.react_eq c store s
  rw [step_of_values h, hreact, ← ValueLookup.askable_iff]
  simp only [suggest_requests]
  constructor
  · intro haskable
    obtain ⟨q, hrequests, hresult⟩ := Inquiry.run_of_askable haskable c.address
    exact ⟨q, hrequests, fun texts hlists => suggestsFrom_of_lists htakes hresult hlists,
      fails_iff htakes hresult⟩
  · intro haskable
    obtain ⟨hrequests, fault, hresult⟩ := Inquiry.run_of_not_askable haskable c.address
    exact ⟨hrequests, fault, suggest_fault hresult⟩

/-- A lookup of field values. -/
def someFieldLookup : Request where
  method := "POST"
  path := "/v1/tag-values/detected-fields"
  body := some (.ok ⟨.object [
    ("filter", .object [("key", .string "level"), ("operator", .string "=")]),
    ("expr", .string "e")], rfl⟩)

/-- The store does not know the endpoint. -/
theorem suggests_iff_unsupported :
    let store : Store := { reply := fun _ => .answered 404 (.error .malformed) }
    (step ⟨{}⟩ store {} someFieldLookup).2.response
      = .answer 200 (.object [("replace", .bool true), ("values", .array [])]) := by
  intro store
  have hread : someFieldLookup.values?
      = some (.field ⟨⟨⟨"level", "=", ""⟩, none, none⟩, [], "e", "fields", 1000, none⟩) := by rfl
  obtain ⟨q, -, hsuggests, -⟩ :=
    (suggests_iff hread ⟨{}⟩ store {}).1 ⟨nofun, fun _ _ => by rfl⟩
  have hlists : Lists .field (.answered 404 (.error .malformed)) [] := by
    refine .nothing ?_ nofun
    rintro values ⟨ms, hdelivers, -⟩
    cases hdelivers
  obtain ⟨ss, hmem, hanswer⟩ := hsuggests [] hlists
  have hnone : ss = [] := List.eq_nil_iff_forall_not_mem.mpr fun s hs => absurd (hmem s hs) nofun
  rw [hanswer, hnone]
  rfl

/-- A lookup of label values for a key with a line feed. -/
def brokenLabelLookup : Request where
  method := "POST"
  path := "/v1/tag-values/labels"
  body := some (.ok ⟨.object [
    ("filter", .object [("key", .string "a\nb"), ("operator", .string "=")])], rfl⟩)

/-- A line feed in the key and a number among the values are faults. -/
theorem faults_of_lineFeed_of_number :
    let storeOf (body : String) : Store := { reply := fun _ => .answered 200 (readText 900 body) }
    let labelStore := storeOf "\x7b\"data\":[]\x7d"
    let fieldStore := storeOf "\x7b\"values\":[5]\x7d"
    brokenLabelLookup.values?.isSome = true ∧ someFieldLookup.values?.isSome = true
      ∧ (step ⟨{}⟩ labelStore {} brokenLabelLookup).2.response
        = .fault (.controlCharacter '\n' 20)
      ∧ (step ⟨{}⟩ fieldStore {} someFieldLookup).2.response
        = .fault (.invalid [⟨.notString, ["value"]⟩]) :=
  ⟨by rfl, by rfl, by rfl, by rfl⟩

end Service

end LogQuery
