import LogQuery.Proofs.Suggestion
/-!
# Suggestions for fields

The texts that are offered for a field are dressed for the edited filter: plain
if the field is structured metadata, in envelopes of its parser if it is not.
How they are to be dressed is `dueDressing`, how they are is `dressing`.  The two
differ for a misread filter alone, and then every suggestion is dressed in the
wrong way (`dressed_iff_not_misread`).

A filter that shows a label has the label in use, in the place of its value
(`offered_beside_label`).
-/

namespace LogQuery.Suggestion

/-! ### Dresses -/

/-- A plain suggestion, or one that is set to an envelope of the text and the parser. -/
def IsDressed : Option Parser → Suggestion → Prop
  | none, s => s.value = none
  | some parser, s => ∃ raw, s.value = some raw ∧ Envelope.read? raw = some ⟨s.text, parser⟩

theorem isDressed_dress (d : Option Parser) (text : String) : IsDressed d (dress d text) := by
  cases d with
  | none => rfl
  | some parser => exact ⟨_, rfl, Envelope.read?_of_spelling (Envelope.spelling_encode _)⟩

/-- No suggestion is dressed in two ways. -/
theorem IsDressed.unique {d d' : Option Parser} {s : Suggestion} (h : IsDressed d s)
    (h' : IsDressed d' s) : d = d' := by
  cases d with
  | none =>
    cases d' with
    | none => rfl
    | some parser' =>
      obtain ⟨raw, hraw, -⟩ := h'
      exact absurd (h.symm.trans hraw) nofun
  | some parser =>
    obtain ⟨raw, hraw, hread⟩ := h
    cases d' with
    | none => exact absurd (hraw.symm.trans h') nofun
    | some parser' =>
      obtain ⟨raw', hraw', hread'⟩ := h'
      obtain rfl : raw = raw' := Option.some.inj (hraw.symm.trans hraw')
      have hparser := Option.some.inj (hread.symm.trans hread')
      exact congrArg some (FieldValue.mk.inj hparser).2

/-- Suggestions that are dressed alike, and those that should be dressed so. -/
theorem forall_isDressed_iff {d d' : Option Parser} {ss : List Suggestion}
    (h : ∀ s ∈ ss, IsDressed d s) : (∀ s ∈ ss, IsDressed d' s) ↔ ss = [] ∨ d = d' := by
  constructor
  · intro h'
    cases ss with
    | nil => exact Or.inl rfl
    | cons s ss => exact Or.inr ((h s List.mem_cons_self).unique (h' s List.mem_cons_self))
  · rintro (rfl | rfl)
    · exact List.forall_mem_nil _
    · exact h

/-! ### The parser of the edited filter -/

/-- The filter has no value yet; what the key picker stored is all that is known of it. -/
def IsPending (edited : Filter) : Prop := edited.value = "" ∨ edited.value = emptyMarker

instance (edited : Filter) : Decidable (IsPending edited) := inferInstanceAs (Decidable (_ ∨ _))

/-- The parser of the value, or without a value that of the origin. -/
def ownParser (edited : Filter) : Parser :=
  if IsPending edited then edited.parser?.getD .mixed else (Envelope.decode edited.value).parser

theorem ownParser_of_pending {edited : Filter} (h : IsPending edited) :
    ownParser edited = edited.parser?.getD .mixed := if_pos h

theorem ownParser_of_value {edited : Filter} (h : ¬ IsPending edited) :
    ownParser edited = (Envelope.decode edited.value).parser := if_neg h

/-- Structured metadata is read by no parser, and stands in no envelope. -/
def dueDressing (edited : Filter) : Option Parser :=
  if ownParser edited = .structuredMetadata ∨ edited.parser? = some .structuredMetadata then none
  else some (ownParser edited)

/-- A filter whose suggestions are not dressed as they are to be. -/
inductive Misread (edited : Filter) : Prop
  /-- The marker of a pending filter is taken for a value, that of the parser `mixed`. -/
  | marker (value : edited.value = emptyMarker)
      (origin : edited.parser? = some .logfmt ∨ edited.parser? = some .json)
  /-- The value says that the field is structured metadata, and the origin does not. -/
  | metadata (value : (Envelope.decode edited.value).parser = .structuredMetadata)
      (origin : edited.parser? ≠ some .structuredMetadata)

variable {edited : Filter}

theorem parser_decode_empty : (Envelope.decode "").parser = .mixed := by rfl

theorem parser_decode_emptyMarker : (Envelope.decode emptyMarker).parser = .mixed := by rfl

theorem Misread.origin_ne (h : Misread edited) : edited.parser? ≠ some .structuredMetadata := by
  cases h with
  | marker _ origin => rcases origin with h | h <;> simp [h]
  | metadata _ origin => exact origin

theorem Misread.value_ne (h : Misread edited) : edited.value ≠ "" := by
  intro hempty
  cases h with
  | marker value _ => exact absurd (hempty.symm.trans value) (by decide)
  | metadata value _ =>
    rw [hempty, parser_decode_empty] at value
    cases value

/-- A misread filter goes by what is decoded from its value. -/
theorem Misread.dressing_eq (h : Misread edited) :
    dressing edited = some (Envelope.decode edited.value).parser := by
  rw [dressing, if_neg h.origin_ne, parserOf, if_pos h.value_ne]

theorem Misread.dressing_ne (h : Misread edited) : dressing edited ≠ dueDressing edited := by
  rw [h.dressing_eq, dueDressing]
  cases h with
  | marker value origin =>
    rw [value, parser_decode_emptyMarker, ownParser_of_pending (Or.inr value)]
    rcases origin with h | h <;> simp [h]
  | metadata value origin =>
    -- no value that stands for a missing one decodes to structured metadata
    have hpending : ¬ IsPending edited := by
      rintro (h | h)
      · rw [h, parser_decode_empty] at value
        cases value
      · rw [h, parser_decode_emptyMarker] at value
        cases value
    rw [ownParser_of_value hpending, if_pos (Or.inl value)]
    exact Option.some_ne_none _

/-- Where nothing is stored the parser is `mixed`, so that it is structured metadata only if the
origin says so. -/
theorem storedParser_ne (horigin : edited.parser? ≠ some .structuredMetadata) :
    edited.parser?.getD .mixed ≠ .structuredMetadata := by
  cases hparser : edited.parser? with
  | none => exact nofun
  | some parser => exact fun h => horigin (hparser.trans (congrArg some h))

/-- Unless it holds the marker, a filter goes by its own parser. -/
theorem parserOf_of_ne_marker (h : edited.value ≠ emptyMarker) :
    parserOf edited = ownParser edited := by
  by_cases hempty : edited.value = ""
  · rw [parserOf, if_neg (not_not_intro hempty), ownParser_of_pending (Or.inl hempty)]
  · rw [parserOf, if_pos hempty, ownParser_of_value (not_or.mpr ⟨hempty, h⟩)]

theorem storedParser_of_marker (h : ¬ Misread edited) (hmarker : edited.value = emptyMarker)
    (horigin : edited.parser? ≠ some .structuredMetadata) :
    edited.parser?.getD .mixed = .mixed := by
  cases hparser : edited.parser? with
  | none => rfl
  | some parser =>
    cases parser with
    | mixed => rfl
    | structuredMetadata => exact absurd hparser horigin
    | logfmt => exact absurd (.marker hmarker (Or.inl hparser)) h
    | json => exact absurd (.marker hmarker (Or.inr hparser)) h

theorem parserOf_of_not_misread (h : ¬ Misread edited)
    (horigin : edited.parser? ≠ some .structuredMetadata) :
    parserOf edited = ownParser edited ∧ ownParser edited ≠ .structuredMetadata := by
  by_cases hmarker : edited.value = emptyMarker
  · -- the marker is decoded, which does no harm where `mixed` is what is stored
    have hparser : parserOf edited = .mixed := by
      rw [parserOf, hmarker, if_pos (by decide), parser_decode_emptyMarker]
    rw [hparser, ownParser_of_pending (Or.inr hmarker), storedParser_of_marker h hmarker horigin]
    exact ⟨rfl, nofun⟩
  · refine ⟨parserOf_of_ne_marker hmarker, ?_⟩
    by_cases hempty : edited.value = ""
    · rw [ownParser_of_pending (Or.inl hempty)]
      exact storedParser_ne horigin
    · rw [ownParser_of_value (not_or.mpr ⟨hempty, hmarker⟩)]
      exact fun hvalue => h (.metadata hvalue horigin)

/-- **A filter is dressed for as it is to be,** unless it is misread. -/
theorem dressing_eq_iff : dressing edited = dueDressing edited ↔ ¬ Misread edited := by
  refine ⟨fun heq h => h.dressing_ne heq, fun h => ?_⟩
  by_cases horigin : edited.parser? = some .structuredMetadata
  · rw [dressing, if_pos horigin, dueDressing, if_pos (Or.inr horigin)]
  · obtain ⟨hparser, hown⟩ := parserOf_of_not_misread h horigin
    rw [dressing, if_neg horigin, dueDressing, if_neg (not_or.mpr ⟨hown, horigin⟩), hparser]

/-- **The parser of suggestions.**  The texts that are not in use are offered, and
if the edited filter is not misread they are dressed as they are to be: plain for
structured metadata, else in envelopes of the filter's own parser.  If it is
misread none of them is; they are in envelopes of what is decoded from its value. -/
theorem dressed_iff_not_misread (texts : List String) (fs : List Filter) (edited : Filter)
    (variableType : String) (hvariable : variableType ≠ levelVariable) :
    ∃ ss, ofField (texts.map .string) fs edited variableType = .ok ss
      ∧ ss.map text = texts.filter (· ∉ fs.flatMap valuesInUse)
      ∧ ((∀ s ∈ ss, IsDressed (dueDressing edited) s) ↔ ss = [] ∨ ¬ Misread edited)
      ∧ (Misread edited →
        ∀ s ∈ ss, IsDressed (some (Envelope.decode edited.value).parser) s) := by
  have hdressed : ∀ s ∈ (texts.filter (· ∉ fs.flatMap valuesInUse)).map (dress (dressing edited)),
      IsDressed (dressing edited) s := List.forall_mem_map.mpr fun t _ => isDressed_dress _ t
  refine ⟨_, ofField_dressed texts fs hvariable, map_text_dress _ _, ?_, fun h => ?_⟩
  · rw [forall_isDressed_iff hdressed, dressing_eq_iff]
  · rwa [h.dressing_eq] at hdressed ⊢

/-- A value that was typed in is no envelope, and goes by `mixed` whatever the key picker stored. -/
theorem dressed_iff_not_misread_typed :
    ∃ ss, ofField (["a", "", "a|b"].map .string) [⟨⟨"level", "!~", "c|a"⟩, none, none⟩]
        ⟨⟨"level", "=", "a"⟩, none, some ⟨some .json⟩⟩ "fields" = .ok ss
      ∧ ss.map text = ["", "a|b"] ∧ ∀ s ∈ ss, IsDressed (some .mixed) s := by
  obtain ⟨ss, hok, htexts, hdressed, -⟩ := dressed_iff_not_misread ["a", "", "a|b"]
    [⟨⟨"level", "!~", "c|a"⟩, none, none⟩] ⟨⟨"level", "=", "a"⟩, none, some ⟨some .json⟩⟩ "fields"
    (by decide)
  refine ⟨ss, hok, htexts.trans (by decide), hdressed.mpr (Or.inr ?_)⟩
  rintro (⟨hvalue, -⟩ | ⟨hvalue, -⟩)
  · exact absurd hvalue (by decide)
  · exact absurd hvalue (by decide +kernel)

/-- A filter without a value, on a field that the key picker knows to be JSON. -/
def pendingFilter : Filter := ⟨⟨"level", "=", emptyMarker⟩, none, some ⟨some .json⟩⟩

/-- A filter whose value alone says that its field is structured metadata. -/
def metadataFilter : Filter :=
  ⟨⟨"pod", "=", "\x7b\"value\":\"b\",\"parser\":\"structuredMetadata\"\x7d"⟩, none, none⟩

/-- The marker is answered with envelopes of `mixed`, and structured metadata with envelopes. -/
theorem misdressed_marker_and_metadata :
    (dueDressing pendingFilter = some .json
      ∧ ofField [.string "a"] [] pendingFilter "fields" = .ok [ofText .mixed "a"]
      ∧ ¬ IsDressed (some .json) (ofText .mixed "a"))
    ∧ dueDressing metadataFilter = none
      ∧ ofField [.string "a"] [] metadataFilter "fields" = .ok [ofText .structuredMetadata "a"]
      ∧ ¬ IsDressed none (ofText .structuredMetadata "a") := by
  refine ⟨⟨by decide +kernel, by rfl, fun h => ?_⟩, by decide +kernel, by rfl, fun h => ?_⟩
  · exact absurd ((isDressed_dress (some .mixed) "a").unique h) (by decide)
  · exact absurd ((isDressed_dress (some .structuredMetadata) "a").unique h) (by decide)

/-! ### Labels -/

/-- A label that is shown stands for the value. -/
theorem valuesInUse_label {f : Filter} {label : String} {more : List String}
    (hregex : f.isRegex = false) (hlabels : f.valueLabels = some (label :: more)) :
    valuesInUse f = [label] := by
  rw [valuesInUse, hlabels, if_neg (Bool.eq_false_iff.mp hregex)]

theorem mem_text_filter_ne {ss : List Suggestion} {t label : String} :
    t ∈ (ss.filter fun s => s.text ≠ label).map text ↔ t ∈ ss.map text ∧ t ≠ label := by
  have htexts : (ss.filter fun s => s.text ≠ label).map text
      = (ss.map text).filter fun t => t ≠ label := by
    rw [List.filter_map]
    rfl
  rw [htexts, List.mem_filter, decide_eq_true_iff]

/-- **What a filter with a label has in use.**  Beside it those texts are offered
that the others leave, without its first label.  So the value of its envelope is
offered or not as it would be without the filter, unless it is that label; then it
is not offered. -/
theorem offered_beside_label (texts : List String) (before after : List Filter) (f : Filter)
    (label : String) (more : List String) (edited : Filter) (variableType : String)
    (hvariable : variableType ≠ levelVariable) (hregex : f.isRegex = false)
    (hlabels : f.valueLabels = some (label :: more)) :
    ∃ others ss, ofField (texts.map .string) (before ++ after) edited variableType = .ok others
      ∧ ofField (texts.map .string) (before ++ f :: after) edited variableType = .ok ss
      ∧ ss = others.filter (fun s => s.text ≠ label)
      ∧ label ∉ ss.map text
      ∧ ∀ fv, Envelope.read? f.value = some fv →
        (fv.value ∈ ss.map text ↔ fv.value ∈ others.map text ∧ fv.value ≠ label) := by
  refine ⟨_, _, ofField_dressed texts _ hvariable, ?_, rfl, ?_, fun fv _ => mem_text_filter_ne⟩
  · rw [ofField_dressed texts _ hvariable, filter_unused_insert, valuesInUse_label hregex hlabels,
      filter_ne_dress]
  · exact fun h => (mem_text_filter_ne.mp h).2 rfl

/-- A filter on the value `info`, and what is shown for it. -/
def labelledFilter (labels : List String) : Filter :=
  ⟨⟨"level", "=", "\x7b\"value\":\"info\",\"parser\":\"json\"\x7d"⟩, some labels, none⟩

/-- A label that is the value goes; a further one, of another candidate, does not. -/
theorem offered_beside_label_own :
    ∃ ss, ofField (["info", "warn", "info"].map .string)
        ([⟨⟨"level", "=~", "debug"⟩, none, none⟩] ++ labelledFilter ["info", "warn"] :: [])
        ⟨⟨"level", "=", ""⟩, none, some ⟨some .structuredMetadata⟩⟩ "fields" = .ok ss
      ∧ ss.map text = ["warn"] := by
  obtain ⟨others, ss, hbeside, hok, hss, -, -⟩ := offered_beside_label ["info", "warn", "info"]
    [⟨⟨"level", "=~", "debug"⟩, none, none⟩] [] (labelledFilter ["info", "warn"]) "info" ["warn"]
    ⟨⟨"level", "=", ""⟩, none, some ⟨some .structuredMetadata⟩⟩ "fields"
    (by decide) (by decide) rfl
  have hothers : others = ["info", "warn", "info"].map ofPlain :=
    Except.ok.inj (hbeside.symm.trans (by rfl))
  refine ⟨ss, hok, ?_⟩
  rw [hss, hothers]
  decide

/-- The value of an envelope is offered if the label is another. -/
theorem offered_under_other_label :
    Envelope.read? (labelledFilter ["Info"]).value = some ⟨"info", .json⟩
    ∧ ∃ ss, ofField [.string "info"] [labelledFilter ["Info"]] ⟨⟨"level", "=", ""⟩, none, none⟩
        "fields" = .ok ss
      ∧ "info" ∈ ss.map text :=
  ⟨by decide +kernel, [ofText .mixed "info"], rfl, by decide⟩

end LogQuery.Suggestion
