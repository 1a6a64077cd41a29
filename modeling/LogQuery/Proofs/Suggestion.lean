import LogQuery.Stage
import LogQuery.Suggestion
import LogQuery.Proofs.Envelope
/-!
# Suggestions for texts

What the store finds for a filter may be any JSON; where it finds texts, nothing
fails, and suggesting is filtering and dressing them (`ofField_texts`).  A value
in its envelope decodes to its text, is rendered as the text would be, and, once
picked, is in use: asking again offers the rest (`ofField_pick`).
-/

namespace LogQuery

namespace Suggestion

/-! ### Texts among values -/

theorem compound?_texts (texts : List String) : compound? (texts.map .string) = none := by
  induction texts with
  | nil => rfl
  | cons t texts ih => exact ih

theorem filter_isIn_texts (used texts : List String) :
    (texts.map Json.string).filter (fun v => !isIn used v)
      = (texts.filter (· ∉ used)).map Json.string := by
  rw [List.filter_map]
  congr 2
  funext t
  simp [isIn]

/-! ### Values of labels -/

/-- The favored texts, then the others, each part in the order of the texts. -/
def favoredFirst (favored texts : List String) : List String :=
  texts.filter (· ∈ favored) ++ texts.filter (· ∉ favored)

theorem sortByFavorites_texts (texts favorites : List String) :
    sortByFavorites (texts.map .string) favorites
      = .ok ((favoredFirst favorites texts).map .string) := by
  rw [sortByFavorites, compound?_texts, filter_isIn_texts, favoredFirst, List.map_append]
  split_ifs with hnone
  · subst hnone
    simp
  · simp only [List.filter_map]
    rfl

/-- The texts that no filter on the key selects. -/
def unselected (fs : List Filter) (key : String) (texts : List String) : List String :=
  texts.filter fun t => ∀ f ∈ fs, f.key = key → selects f.toMatcher t = false

theorem ofLabel_texts (texts : List String) (fs : List Filter) (key : String)
    (favorites : List String) :
    ofLabel (texts.map .string) (matchers fs) key favorites
      = .ok ((favoredFirst favorites (unselected fs key texts)).map .string) := by
  have hfree : (texts.map Json.string).filter
        (fun v => !isSelected ((matchers fs).filter (·.key = key)) v)
      = (unselected fs key texts).map Json.string := by
    rw [List.filter_map, unselected]
    congr 2
    funext t
    rw [Bool.eq_iff_iff]
    simp [isSelected, matchers]
  rw [ofLabel, hfree, sortByFavorites_texts]

/-- A suggestion of nothing but a text. -/
def ofPlain (text : String) : Suggestion := ⟨text, none⟩

theorem mapM_plain (texts : List String) :
    (texts.map Json.string).mapM plain = .ok (texts.map ofPlain) := by
  rw [List.mapM_map]
  exact List.mapM_pure

/-- No text among the strings is left over for the end. -/
theorem plains_texts (texts : List String) :
    plains (texts.map .string) = .ok (texts.map ofPlain) := by
  have hfree : (texts.map Json.string).filter (fun v => !v.isUnpaired)
      = texts.map Json.string := by
    rw [List.filter_eq_self, List.forall_mem_map]
    exact fun _ _ => rfl
  rw [plains, hfree, mapM_plain]
  rfl

/-! ### Values of fields -/

/-- The suggestion of a text in an envelope. -/
def ofText (parser : Parser) (text : String) : Suggestion :=
  ⟨text, some (Envelope.encode ⟨text, parser⟩)⟩

theorem mapM_enveloped (parser : Parser) (texts : List String) :
    (texts.map Json.string).mapM (enveloped parser) = .ok (texts.map (ofText parser)) := by
  rw [List.mapM_map]
  exact List.mapM_pure

/-- The parser in whose envelopes the values are offered; without one they are plain. -/
def dressing (edited : Filter) : Option Parser :=
  if edited.parser? = some .structuredMetadata then none else some (parserOf edited)

/-- The suggestion of a text, in an envelope if there is a parser for it. -/
def dress : Option Parser → String → Suggestion
  | none => ofPlain
  | some parser => ofText parser

variable {edited : Filter} {variableType : String}

/-- **Texts that are not in use are offered,** all of them dressed alike. -/
theorem ofField_dressed (texts : List String) (fs : List Filter)
    (hvariable : variableType ≠ levelVariable) :
    ofField (texts.map .string) fs edited variableType
      = .ok ((texts.filter (· ∉ fs.flatMap valuesInUse)).map (dress (dressing edited))) := by
  rw [ofField, if_neg hvariable, compound?_texts, dressing]
  by_cases horigin : edited.parser? = some .structuredMetadata
  · simp only [if_pos horigin]
    rw [filter_isIn_texts, plains_texts]
    rfl
  · simp only [if_neg horigin]
    rw [filter_isIn_texts, mapM_enveloped]
    rfl

theorem ofField_texts (texts : List String) (fs : List Filter)
    (hvariable : variableType ≠ levelVariable)
    (horigin : edited.parser? ≠ some .structuredMetadata) :
    ofField (texts.map .string) fs edited variableType
      = .ok ((texts.filter (· ∉ fs.flatMap valuesInUse)).map (ofText (parserOf edited))) := by
  rw [ofField_dressed texts fs hvariable, dressing, if_neg horigin]
  rfl

theorem text_dress (d : Option Parser) (t : String) : (dress d t).text = t := by
  cases d <;> rfl

theorem map_text_dress (d : Option Parser) (texts : List String) :
    (texts.map (dress d)).map text = texts := by
  rw [List.map_map]
  exact (List.map_congr_left fun t _ => text_dress d t).trans (List.map_id _)

theorem map_text_ofText (parser : Parser) (texts : List String) :
    (texts.map (ofText parser)).map text = texts := map_text_dress (some parser) texts

theorem filter_ne_dress (d : Option Parser) (t : String) (texts : List String) :
    (texts.map (dress d)).filter (fun s => s.text ≠ t)
      = (texts.filter (· ∉ [t])).map (dress d) := by
  rw [List.filter_map]
  congr 2
  funext u
  show decide ((dress d u).text ≠ t) = decide (u ∉ [t])
  rw [text_dress]
  exact decide_eq_decide.mpr (not_congr List.mem_singleton.symm)

theorem filter_ne_ofText (parser : Parser) (t : String) (texts : List String) :
    (texts.map (ofText parser)).filter (fun s => s.text ≠ t)
      = (texts.filter (· ∉ [t])).map (ofText parser) := filter_ne_dress (some parser) t texts

/-! ### A value that is picked -/

/-- What a filter is when a value is picked for it. -/
def pick (key operator raw text : String) : Filter := ⟨⟨key, operator, raw⟩, some [text], none⟩

theorem valuesInUse_pick {key operator raw text : String}
    (hregex : Symbol.isRegex operator = false) :
    valuesInUse (pick key operator raw text) = [text] :=
  if_neg (by rw [Filter.toMatcher, pick, Matcher.isRegex, hregex]; exact Bool.false_ne_true)

/-- One filter more drops its values from what is left, wherever it stands. -/
theorem filter_unused_insert (texts : List String) (before after : List Filter) (f : Filter) :
    texts.filter (· ∉ (before ++ f :: after).flatMap valuesInUse)
      = (texts.filter (· ∉ (before ++ after).flatMap valuesInUse)).filter (· ∉ valuesInUse f) := by
  rw [List.filter_filter]
  congr 1
  funext t
  simp only [List.flatMap_append, List.flatMap_cons, List.mem_append, not_or, ← Bool.decide_and]
  exact decide_eq_decide.mpr and_left_comm

theorem filter_unused_concat (texts : List String) (fs : List Filter) (f : Filter) :
    texts.filter (· ∉ (fs ++ [f]).flatMap valuesInUse)
      = (texts.filter (· ∉ fs.flatMap valuesInUse)).filter (· ∉ valuesInUse f) := by
  rw [filter_unused_insert, List.append_nil]

end Suggestion

/-! ### A single field filter -/

/-- A single filter is a single stage, whatever list it is in. -/
theorem Stage.fields_singleton {m : Matcher} (hnumeric : m.isNumeric = false) :
    fields [m] = metadata [m] := by
  have hrest : [m].filter (fun m => !m.isNumeric) = [m] := by simp [hnumeric]
  have hnone : [m].filter Matcher.isNumeric = [] := by simp [hnumeric]
  have hexclusive : (Groups.ofMatchers [m]).exclusive = [m].filter Matcher.isExclusive := by
    cases h : m.isExclusive with
    | true => simp [Groups.exclusive, Groups.ofMatchers, h, groupBy, insertGroup]
    | false => simp [Groups.exclusive, Groups.ofMatchers, h, groupBy]
  rw [fields, metadata, hrest, hnone, hexclusive, List.map_nil, List.append_nil]

/-- In an envelope a value is rendered as it is without one. -/
theorem Envelope.fields_encode (key operator : String) (fv : FieldValue)
    (hnumeric : Symbol.isNumeric operator = false) :
    Stage.fields [matcher (Matcher.toFilter ⟨key, operator, encode fv⟩)]
      = Stage.metadata [⟨key, operator, fv.value⟩] := by
  have hmatcher : matcher (Matcher.toFilter ⟨key, operator, encode fv⟩)
      = ⟨key, operator, fv.value⟩ := by
    show Matcher.mk key operator (decode (encode fv)).value = _
    rw [decode_encode]
  rw [hmatcher]
  exact Stage.fields_singleton hnumeric

namespace Suggestion

/-- **What is offered can be picked.**  The texts that are not in use are offered
in envelopes of one parser.  An envelope decodes to its text, and a filter on it
is rendered as a filter on the text.  Once it is picked, the others are offered
and it is not.  A value that is typed in is put into such an envelope too. -/
theorem ofField_pick (texts : List String) (fs : List Filter) (edited : Filter)
    (variableType : String) (hvariable : variableType ≠ levelVariable)
    (horigin : edited.parser? ≠ some .structuredMetadata) :
    (∃ ss p, ofField (texts.map .string) fs edited variableType = .ok ss
      ∧ ss.map text = texts.filter (· ∉ fs.flatMap valuesInUse)
      ∧ ∀ s ∈ ss, ∃ raw, s.value = some raw ∧ Envelope.decode raw = ⟨s.text, p⟩
        ∧ (∀ key operator, Symbol.isNumeric operator = false →
          Stage.fields [Envelope.matcher (Matcher.toFilter ⟨key, operator, raw⟩)]
            = Stage.metadata [⟨key, operator, s.text⟩])
        ∧ ∀ key operator, Symbol.isRegex operator = false →
          ofField (texts.map .string) (fs ++ [pick key operator raw s.text]) edited variableType
            = .ok (ss.filter fun r => r.text ≠ s.text))
    ∧ ∀ (value label : Option String) (filter : Option Filter),
        Envelope.decode (Envelope.custom value label filter).value
          = ⟨value.getD "", (filter.bind Filter.parser?).getD .mixed⟩ := by
  constructor
  · refine ⟨_, parserOf edited, ofField_texts texts fs hvariable horigin, map_text_ofText _ _, ?_⟩
    refine List.forall_mem_map.mpr fun t _ => ⟨_, rfl, Envelope.decode_encode _, ?_, ?_⟩
    · intro key operator hnumeric
      exact Envelope.fields_encode key operator _ hnumeric
    · intro key operator hregex
      rw [ofField_texts texts _ hvariable horigin, filter_unused_concat, valuesInUse_pick hregex,
        filter_ne_ofText]
  · intro value label filter
    exact Envelope.decode_encode _

/-- The empty text, one with a bar and one that looks like an envelope are
offered; then the empty one is picked. -/
theorem ofField_pick_empty :
    ∃ raw rest, ofField (["", "a|b", "warn", "\x7b\"value\":\"\"\x7d"].map .string)
        ([⟨⟨"level", "=~", "warn|debug"⟩, none, none⟩] ++ [pick "level" "!=" raw ""])
        ⟨⟨"level", "=", ""⟩, none, some ⟨some .json⟩⟩ "fields" = .ok rest
      ∧ rest.map text = ["a|b", "\x7b\"value\":\"\"\x7d"] := by
  obtain ⟨⟨ss, p, -, htexts, hall⟩, -⟩ := ofField_pick
    ["", "a|b", "warn", "\x7b\"value\":\"\"\x7d"] [⟨⟨"level", "=~", "warn|debug"⟩, none, none⟩]
    ⟨⟨"level", "=", ""⟩, none, some ⟨some .json⟩⟩ "fields" (by decide) (by decide)
  have hoffered : ss.map text = ["", "a|b", "\x7b\"value\":\"\"\x7d"] := htexts.trans (by decide)
  obtain ⟨s, hs, hempty⟩ : ∃ s ∈ ss, s.text = "" := by
    have hmem : "" ∈ ss.map text := by simp [hoffered]
    simpa using hmem
  obtain ⟨raw, -, -, -, hagain⟩ := hall s hs
  rw [hempty] at hagain
  refine ⟨raw, _, hagain "level" "!=" (by decide), ?_⟩
  have hrest : (ss.filter fun r => r.text ≠ "").map text
      = (ss.map text).filter fun t => t ≠ "" := by
    rw [List.filter_map]
    rfl
  rw [hrest, hoffered]
  decide

end Suggestion

end LogQuery
