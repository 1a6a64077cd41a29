import LogQuery.Proofs.Envelope
import LogQuery.Proofs.Expression
/-!
# Stages of fields and of metadata

Fields and metadata are written from the same clauses.  The exclusive matchers
alone are told apart: metadata put those of a key together, fields leave them in
their order.  Where they stand together already, and no comparison is numeric, the
texts are the same (`fields_enclosed`), for a value in its envelope is written as
the value.  Numeric comparisons follow all other stages, one by one.
-/

namespace LogQuery

open Syntax

/-! ### Filters with their values in envelopes -/

namespace Envelope

/-- The filter with its value in an envelope. -/
def enclose (parser : Parser) (f : Filter) : Filter := { f with value := encode ⟨f.value, parser⟩ }

/-- Filters, each with the parser of its envelope. -/
def enclosed (qs : List (Filter × Parser)) : List Filter := qs.map fun q => enclose q.2 q.1

theorem matcher_enclose (parser : Parser) (f : Filter) :
    matcher (enclose parser f) = f.toMatcher := by
  show Matcher.mk f.key f.operator (decode (encode ⟨f.value, parser⟩)).value = f.toMatcher
  rw [decode_encode]

theorem map_matcher_enclosed (qs : List (Filter × Parser)) :
    (enclosed qs).map matcher = matchers (qs.map Prod.fst) := by
  rw [enclosed, matchers, List.map_map, List.map_map]
  exact List.map_congr_left fun q _ => matcher_enclose q.2 q.1

end Envelope

/-! ### Matchers put together by their keys -/

/-- The matchers `ns` are the matchers `ms` with the exclusive ones put together by
their keys. -/
structure Regrouped (ms ns : List Matcher) : Prop where
  inclusive : inclusive ns = inclusive ms
  exclusive : exclusive ns = exclusiveByKey ms

/-- No matcher is new. -/
theorem Regrouped.mem {ms ns : List Matcher} (h : Regrouped ms ns) {m : Matcher} (hm : m ∈ ns) :
    m ∈ ms := by
  cases hclass : m.isExclusive with
  | true =>
    have hexclusive : m ∈ LogQuery.exclusive ns := List.mem_filter.mpr ⟨hm, hclass⟩
    rw [h.exclusive] at hexclusive
    exact mem_exclusiveByKey hexclusive
  | false =>
    have hinclusive : m ∈ LogQuery.inclusive ns :=
      List.mem_filter.mpr ⟨hm, congrArg Bool.not hclass⟩
    rw [h.inclusive] at hinclusive
    exact (List.mem_filter.mp hinclusive).1

/-! ### The two texts -/

namespace Stage

/-- Without numeric comparisons there is one clause for each key and each exclusive
matcher. -/
theorem fieldClauses_eq {ms : List Matcher} (h : ∀ m ∈ ms, m.isNumeric = false) :
    fieldClauses ms = (inclusiveByKey ms).map clause ++ (exclusive ms).map fun m => clause [m] := by
  have hrest : ms.filter (fun m => !m.isNumeric) = ms :=
    List.filter_eq_self.mpr fun m hm => congrArg Bool.not (h m hm)
  have hnone : ms.filter Matcher.isNumeric = [] :=
    List.filter_eq_nil_iff.mpr fun m hm => Bool.eq_false_iff.mp (h m hm)
  rw [fieldClauses, hrest, hnone, List.map_nil, List.append_nil]

/-- **Fields are written as metadata** where they stand together by their keys. -/
theorem fields_of_regrouped {ms ns : List Matcher} (hnumeric : ∀ m ∈ ms, m.isNumeric = false)
    (h : Regrouped ms ns) : fields ns = metadata ms := by
  rw [fields_eq_print, metadata_eq_print, metadataClauses,
    fieldClauses_eq fun m hm => hnumeric m (h.mem hm), h.exclusive, inclusiveByKey, h.inclusive,
    ← inclusiveByKey]

/-- Numeric comparisons have clauses of their own, after those of the others. -/
theorem fieldClauses_eq_append (ms : List Matcher) :
    fieldClauses ms = fieldClauses (ms.filter fun m => !m.isNumeric)
      ++ (ms.filter Matcher.isNumeric).map fun m => .filter [m.bareCondition] := by
  have hrest : ∀ m ∈ ms.filter (fun m => !m.isNumeric), m.isNumeric = false := fun m hm => by
    simpa using (List.mem_filter.mp hm).2
  rw [fieldClauses_eq hrest]
  rfl

theorem text_bareCondition (m : Matcher) :
    (Clause.filter [m.bareCondition]).text = "| " ++ m.key ++ m.operator ++ m.value := by
  have hbar : ("|" ++ " " : String) = "| " := by decide
  rw [Clause.text, List.map_singleton, String.intercalate_singleton, hbar, Matcher.bareCondition,
    Condition.text, Operand.text]
  simp only [String.append_assoc]

/-- **Numeric comparisons follow one by one.** -/
theorem fields_eq_joinNonEmpty (ms : List Matcher) :
    fields ms = Text.joinNonEmpty (fields (ms.filter fun m => !m.isNumeric)
      :: (ms.filter Matcher.isNumeric).map fun m => "| " ++ m.key ++ m.operator ++ m.value) := by
  have hsingle : ((ms.filter Matcher.isNumeric).map fun m =>
        [Clause.filter [m.bareCondition]]).map print
      = (ms.filter Matcher.isNumeric).map fun m => "| " ++ m.key ++ m.operator ++ m.value := by
    rw [List.map_map]
    refine List.map_congr_left fun m _ => ?_
    show print [Clause.filter [m.bareCondition]] = _
    rw [print, List.map_singleton, String.intercalate_singleton, text_bareCondition]
  have hflat : ((ms.filter Matcher.isNumeric).map fun m =>
        [Clause.filter [m.bareCondition]]).flatten
      = (ms.filter Matcher.isNumeric).map fun m => .filter [m.bareCondition] :=
    List.map_eq_flatMap.symm
  rw [← hsingle, fields_eq_print (ms.filter _), ← List.map_cons, joinNonEmpty_print,
    List.flatten_cons, hflat, ← fieldClauses_eq_append, fields_eq_print]

/-- **Fields in envelopes are written as metadata.**  Without numeric comparisons
they are, once the exclusive filters stand together by their keys.  Numeric ones
follow what the others give, a stage for each in their order, with their values
bare; where a part is empty there is no space for it. -/
theorem fields_enclosed (qs : List (Filter × Parser)) :
    (∀ fs : List Filter, (∀ f ∈ fs, f.isNumeric = false) →
      Regrouped (matchers fs) (matchers (qs.map Prod.fst)) →
      fields ((Envelope.enclosed qs).map Envelope.matcher) = metadata (matchers fs))
    ∧ fields ((Envelope.enclosed qs).map Envelope.matcher)
      = Text.joinNonEmpty
        (fields ((Envelope.enclosed (qs.filter fun q => !q.1.isNumeric)).map Envelope.matcher)
          :: (qs.filter fun q => q.1.isNumeric).map
            fun q => "| " ++ q.1.key ++ q.1.operator ++ q.1.value) := by
  have hfilter : ∀ p : Matcher → Bool, (matchers (qs.map Prod.fst)).filter p
      = matchers ((qs.filter fun q => p q.1.toMatcher).map Prod.fst) := fun p => by
    rw [matchers, matchers, List.filter_map, List.filter_map]
    rfl
  constructor
  · intro fs hnumeric hregrouped
    rw [Envelope.map_matcher_enclosed]
    exact fields_of_regrouped (List.forall_mem_map.mpr hnumeric) hregrouped
  · rw [Envelope.map_matcher_enclosed, Envelope.map_matcher_enclosed, fields_eq_joinNonEmpty,
      hfilter, hfilter, matchers, matchers, List.map_map, List.map_map, List.map_map]
    rfl

/-- Two keys with two exclusive filters each that alternate, and the empty marker. -/
theorem fields_enclosed_alternating :
    fields ((Envelope.enclosed
        ([⟨"b", "!=", "1"⟩, ⟨"b", "!~", "3"⟩, ⟨"a", "=", emptyMarker⟩, ⟨"c", "!=", "2"⟩,
          ⟨"c", "!=", emptyMarker⟩].map fun m => (Matcher.toFilter m, .json))).map
        Envelope.matcher)
      = metadata [⟨"b", "!=", "1"⟩, ⟨"c", "!=", "2"⟩, ⟨"a", "=", emptyMarker⟩, ⟨"b", "!~", "3"⟩,
        ⟨"c", "!=", emptyMarker⟩] :=
  (fields_enclosed _).1 ([⟨"b", "!=", "1"⟩, ⟨"c", "!=", "2"⟩, ⟨"a", "=", emptyMarker⟩,
    ⟨"b", "!~", "3"⟩, ⟨"c", "!=", emptyMarker⟩].map Matcher.toFilter) (by decide)
    ⟨by decide, by decide⟩

end Stage

end LogQuery
