import LogQuery.Proofs.Absorption
import LogQuery.Proofs.Meaning
import LogQuery.Proofs.Suggestion
/-!
# Suggestions for labels

A text is offered for a label unless a filter on the key has it in use.  The
filters that choose a value are equalities and positive alternations; but the
texts of every other alternation are kept back as well, those of a negated one
too (`ofLabel_perm_iff`).

Where the filters on the key are all choices, each of them keeps back the
alternatives of its value.  Joining puts the alternatives together, so that it
does not matter whether the filters have been joined (`ofLabel_joinFilters`).
-/

namespace LogQuery

/-- Two selections from a list have the same members if they are the same. -/
theorem filter_perm_filter_iff {α : Type} {p q : α → Bool} {xs : List α} :
    (xs.filter p).Perm (xs.filter q) ↔ ∀ x ∈ xs, p x = q x := by
  constructor
  · intro h x hx
    have hmem := h.mem_iff (a := x)
    simp only [List.mem_filter, hx, true_and] at hmem
    exact Bool.eq_iff_iff.mpr hmem
  · intro h
    rw [List.filter_congr h]

namespace Suggestion

/-! ### What a matcher keeps back -/

section Selects

variable {m : Matcher} {text : String}

theorem selects_of_regex (h : m.isRegex = true) :
    selects m text = true ↔ text ∈ Text.alternatives m.value := by
  rw [selects, if_pos h, decide_eq_true_iff]

theorem selects_of_equal (h : m.operator = Operator.equal.symbol) :
    selects m text = true ↔ m.value = text := by
  have hregex : ¬ m.isRegex = true := by
    rw [Matcher.isRegex, h]
    decide
  rw [selects, if_neg hregex, h, decide_eq_true rfl, Bool.true_and, decide_eq_true_iff]

/-- A pattern that is negated has the same symbol for labels and for lines. -/
theorem isRegex_iff : m.isRegex = true ↔ m.operator = Operator.matching.symbol
    ∨ m.operator = Operator.notMatching.symbol ∨ m.operator = LineOperator.matching.symbol := by
  simp only [Matcher.isRegex, Symbol.isRegex, decide_eq_true_eq, List.mem_cons,
    List.not_mem_nil, or_false]
  constructor
  · rintro (h | h | h | h)
    · exact Or.inl h
    · exact Or.inr (Or.inl h)
    · exact Or.inr (Or.inr h)
    · exact Or.inr (Or.inl h)
  · rintro (h | h | h)
    · exact Or.inl h
    · exact Or.inr (Or.inl h)
    · exact Or.inr (Or.inr (Or.inl h))

/-- The matcher chooses the text. -/
def Chooses (m : Matcher) (text : String) : Prop :=
  m.operator = Operator.equal.symbol ∧ m.value = text
    ∨ m.operator = Operator.matching.symbol ∧ text ∈ Text.alternatives m.value

/-- The text stands in an alternation that is negated, or that is for lines. -/
def Mentions (m : Matcher) (text : String) : Prop :=
  (m.operator = Operator.notMatching.symbol ∨ m.operator = LineOperator.matching.symbol)
    ∧ text ∈ Text.alternatives m.value

instance (m : Matcher) (text : String) : Decidable (Chooses m text) :=
  inferInstanceAs (Decidable (_ ∨ _))

instance (m : Matcher) (text : String) : Decidable (Mentions m text) :=
  inferInstanceAs (Decidable (_ ∧ _))

/-- **A matcher keeps back** what it chooses, and what it only mentions. -/
theorem selects_iff : selects m text = true ↔ Chooses m text ∨ Mentions m text := by
  constructor
  · intro h
    by_cases hregex : m.isRegex = true
    · have hmem := (selects_of_regex hregex).mp h
      exact (isRegex_iff.mp hregex).imp (fun ho => Or.inr ⟨ho, hmem⟩) fun ho => ⟨ho, hmem⟩
    · rw [selects, if_neg hregex, Bool.and_eq_true, decide_eq_true_iff, decide_eq_true_iff] at h
      exact Or.inl (Or.inl h)
  · rintro ((⟨ho, hvalue⟩ | ⟨ho, hmem⟩) | ⟨ho, hmem⟩)
    · exact (selects_of_equal ho).mpr hvalue
    · exact (selects_of_regex (isRegex_iff.mpr (Or.inl ho))).mpr hmem
    · exact (selects_of_regex (isRegex_iff.mpr (Or.inr ho))).mpr hmem

end Selects

/-! ### What the filters keep back -/

/-- Some filter on the key chooses the text. -/
def IsChosen (fs : List Filter) (key text : String) : Prop :=
  ∃ f ∈ fs, f.key = key ∧ Chooses f.toMatcher text

/-- Some filter on the key mentions the text. -/
def IsMentioned (fs : List Filter) (key text : String) : Prop :=
  ∃ f ∈ fs, f.key = key ∧ Mentions f.toMatcher text

instance (fs : List Filter) (key text : String) : Decidable (IsChosen fs key text) :=
  inferInstanceAs (Decidable (∃ f ∈ fs, _))

instance (fs : List Filter) (key text : String) : Decidable (IsMentioned fs key text) :=
  inferInstanceAs (Decidable (∃ f ∈ fs, _))

theorem unselected_eq (fs : List Filter) (key : String) (texts : List String) :
    unselected fs key texts
      = texts.filter fun t => ¬ (IsChosen fs key t ∨ IsMentioned fs key t) := by
  refine List.filter_congr fun t _ => decide_eq_decide.mpr ?_
  constructor
  · rintro h (⟨f, hf, hkey, hchooses⟩ | ⟨f, hf, hkey, hmentions⟩)
    · exact Bool.eq_false_iff.mp (h f hf hkey) (selects_iff.mpr (Or.inl hchooses))
    · exact Bool.eq_false_iff.mp (h f hf hkey) (selects_iff.mpr (Or.inr hmentions))
  · intro h f hf hkey
    refine Bool.eq_false_iff.mpr fun hselects => h ?_
    exact (selects_iff.mp hselects).imp (fun hc => ⟨f, hf, hkey, hc⟩) fun hm => ⟨f, hf, hkey, hm⟩

theorem favoredFirst_perm (favored texts : List String) : (favoredFirst favored texts).Perm texts := by
  have hothers : texts.filter (· ∉ favored) = texts.filter fun t => !decide (t ∈ favored) :=
    List.filter_congr fun t _ => decide_not
  rw [favoredFirst, hothers]
  exact List.filter_append_perm _ texts

/-- **What is offered for a label.**  Of the texts those are kept, each as often as
it was found, that no filter on the key chooses or mentions.  So what is dropped
is what is chosen exactly if no text is mentioned that is not also chosen: where a
negated alternation has a candidate among its texts, that candidate is missing. -/
theorem ofLabel_perm_iff (texts : List String) (fs : List Filter) (key : String)
    (favorites : List String) :
    ∃ kept : List String,
      ofLabel (texts.map .string) (matchers fs) key favorites = .ok (kept.map .string)
      ∧ kept.Perm (texts.filter fun t => ¬ (IsChosen fs key t ∨ IsMentioned fs key t))
      ∧ (kept.Perm (texts.filter fun t => ¬ IsChosen fs key t)
        ↔ ∀ t ∈ texts, IsMentioned fs key t → IsChosen fs key t) := by
  have hkept := favoredFirst_perm favorites (unselected fs key texts)
  refine ⟨_, ofLabel_texts texts fs key favorites, unselected_eq fs key texts ▸ hkept, ?_⟩
  -- both sides are selections from the texts, so that they can be compared text by text
  rw [hkept.congr_left, unselected_eq, filter_perm_filter_iff]
  refine forall₂_congr fun t _ => ?_
  rw [decide_eq_decide, not_iff_not, or_iff_left_iff_imp]

/-- A negated alternation keeps back a text that nothing chooses. -/
theorem dropped_by_negated_alternation :
    ofLabel (["a", "b"].map .string) (matchers [⟨⟨"host", "!~", "a|c"⟩, none, none⟩]) "host" []
        = .ok (["b"].map .string)
      ∧ ¬ IsChosen [⟨⟨"host", "!~", "a|c"⟩, none, none⟩] "host" "a"
      ∧ ¬ ["b"].Perm (["a", "b"].filter
        fun t => ¬ IsChosen [⟨⟨"host", "!~", "a|c"⟩, none, none⟩] "host" t) :=
  ⟨by rfl, by decide, by decide⟩

/-! ### Joined filters -/

open Join

/-- An equality with a value of one alternative, or a positive alternation. -/
def IsChoice (m : Matcher) : Prop :=
  m.operator = Operator.equal.symbol ∧ '|' ∉ m.value.toList
    ∨ m.operator = Operator.matching.symbol

instance (m : Matcher) : Decidable (IsChoice m) := inferInstanceAs (Decidable (_ ∨ _))

variable {ms : List Matcher} {key text : String}

theorem selects_of_isChoice {m : Matcher} (h : IsChoice m) :
    selects m text = true ↔ text ∈ Text.alternatives m.value := by
  rcases h with ⟨ho, hbar⟩ | ho
  · rw [selects_of_equal ho, Text.alternatives_of_not_mem hbar, List.mem_singleton, eq_comm]
  · exact selects_of_regex (isRegex_iff.mpr (Or.inl ho))

theorem isInclusive_of_isChoice {m : Matcher} (h : IsChoice m) : m.isInclusive = true := by
  rcases h with ⟨ho, -⟩ | ho
  · rw [Matcher.isInclusive, ho]
    rfl
  · rw [Matcher.isInclusive, ho]
    rfl

/-- Choices are joined to a choice. -/
theorem isChoice_joinGroup {k : String} {g : List Matcher} (hne : g ≠ [])
    (h : ∀ m ∈ g, IsChoice m) : IsChoice (joinGroup .matching (k, g)) := by
  cases g with
  | nil => exact absurd rfl hne
  | cons m g =>
    cases g with
    | nil => exact h m List.mem_cons_self
    | cons n g => exact Or.inr rfl

/-- A key with choices alone is joined to one of them. -/
theorem mem_membersOf_join (h : ∀ m ∈ membersOf Matcher.key ms key, IsChoice m) {m : Matcher} :
    m ∈ membersOf Matcher.key (join ms) key
      ↔ membersOf Matcher.key ms key ≠ []
        ∧ m = joinGroup .matching (key, membersOf Matcher.key ms key) := by
  have hinclusive : membersOf Matcher.key (inclusive ms) key = membersOf Matcher.key ms key := by
    rw [inclusive, membersOf_filter]
    exact List.filter_eq_self.mpr fun n hn => isInclusive_of_isChoice (h n hn)
  have hexclusive : membersOf Matcher.key (exclusive ms) key = [] := by
    rw [exclusive, membersOf_filter]
    exact List.filter_eq_nil_iff.mpr fun n hn =>
      Bool.eq_false_iff.mp (Matcher.isInclusive_iff.mp (isInclusive_of_isChoice (h n hn)))
  -- of the two classes the inclusive one has the whole group, and the other nothing on the key
  rw [join_eq_joined, membersOf_append, List.mem_append, mem_membersOf_joined,
    mem_membersOf_joined, hinclusive, hexclusive]
  simp only [ne_eq, not_true_eq_false, false_and, or_false]

/-- **Joining keeps back the same texts** where the filters on the key are choices. -/
theorem isSelected_join (h : ∀ m ∈ membersOf Matcher.key ms key, IsChoice m) (v : Json) :
    isSelected (membersOf Matcher.key (join ms) key) v
      = isSelected (membersOf Matcher.key ms key) v := by
  cases v with
  | string text =>
    refine Bool.eq_iff_iff.mpr ?_
    simp only [isSelected, List.any_eq_true]
    constructor
    · rintro ⟨m, hm, hselects⟩
      obtain ⟨hne, rfl⟩ := (mem_membersOf_join h).mp hm
      rw [selects_of_isChoice (isChoice_joinGroup hne h), mem_alternatives_joinGroup hne] at hselects
      obtain ⟨n, hn, htext⟩ := hselects
      exact ⟨n, hn, (selects_of_isChoice (h n hn)).mpr htext⟩
    · rintro ⟨n, hn, hselects⟩
      have hne : membersOf Matcher.key ms key ≠ [] := List.ne_nil_of_mem hn
      refine ⟨_, (mem_membersOf_join h).mpr ⟨hne, rfl⟩, ?_⟩
      rw [selects_of_isChoice (isChoice_joinGroup hne h), mem_alternatives_joinGroup hne]
      exact ⟨n, hn, (selects_of_isChoice (h n hn)).mp hselects⟩
  | null | bool | number | unpaired | array | object => rfl

/-- **It does not matter whether the filters are joined** for what is offered on a key
with choices alone.  This is so for any values and favorites, also where the
values are no texts. -/
theorem ofLabel_joinFilters (values : List Json) (fs : List Filter) (key : String)
    (favorites : List String) (h : ∀ f ∈ fs, f.key = key → IsChoice f.toMatcher) :
    ofLabel values (matchers (joinFilters fs)) key favorites
      = ofLabel values (matchers fs) key favorites := by
  have hchoices : ∀ m ∈ membersOf Matcher.key (matchers fs) key, IsChoice m := by
    intro m hm
    obtain ⟨hm, hkey⟩ := mem_membersOf.mp hm
    obtain ⟨f, hf, rfl⟩ := List.mem_map.mp hm
    exact h f hf hkey
  have hselected : isSelected ((join (matchers fs)).filter (·.key = key))
      = isSelected ((matchers fs).filter (·.key = key)) := funext (isSelected_join hchoices)
  rw [joinFilters, matchers_toFilter, ofLabel, ofLabel, hselected]

/-- Three choices, one of them with an empty alternative, and another key with a bar in its value. -/
theorem ofLabel_joinFilters_choices :
    ofLabel (["a", "", "d", "b|c", "b", "d"].map .string) (matchers (joinFilters
        [⟨⟨"host", "=", "a"⟩, some ["A"], none⟩, ⟨⟨"app", "!~", "x|d"⟩, none, none⟩,
          ⟨⟨"host", "=~", "b||c"⟩, none, none⟩, ⟨⟨"host", "=", "a"⟩, none, none⟩])) "host" ["d"]
      = .ok (["d", "d", "b|c"].map .string) :=
  (ofLabel_joinFilters (["a", "", "d", "b|c", "b", "d"].map .string)
    [⟨⟨"host", "=", "a"⟩, some ["A"], none⟩, ⟨⟨"app", "!~", "x|d"⟩, none, none⟩,
      ⟨⟨"host", "=~", "b||c"⟩, none, none⟩, ⟨⟨"host", "=", "a"⟩, none, none⟩] "host" ["d"]
    (by decide)).trans (by rfl)

end Suggestion

end LogQuery
