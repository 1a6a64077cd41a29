import LogQuery.Proofs.Expression
/-!
# Filter variables

The variables of a dashboard hold raw filters, those of fields in envelopes.
Where keys are identifiers, operators are known and numbers are plain decimals,
the expression compiled from them is read back to what the filters ask for
(`Variables.read?_expression`), whatever the values are.
-/

namespace LogQuery

open Syntax

/-! ### Identifiers and decimals -/

def isIdentifierChar (c : Char) : Bool := c.isAlpha || c = '_' || c = ':'

/-- A letter, an underscore or a colon, then such characters and digits. -/
def isIdentifier (s : String) : Bool :=
  match s.toList with
  | [] => false
  | c :: cs => isIdentifierChar c && cs.all fun d => isIdentifierChar d || d.isDigit

def isDigits (cs : List Char) : Bool := cs ≠ [] && cs.all Char.isDigit

def unsigned : List Char → List Char
  | '+' :: cs => cs
  | '-' :: cs => cs
  | cs => cs

/-- Digits, with a sign and a fraction or without. -/
def isDecimal (s : String) : Bool :=
  match (unsigned s.toList).splitOn '.' with
  | [whole] => isDigits whole
  | [whole, fraction] => isDigits whole && isDigits fraction
  | _ => false

/-- The characters that are in no word. -/
def separators : List Char :=
  [' ', '\t', '\n', '\r', '=', '!', '~', '<', '>', '|', '\x7b', '\x7d', ',', '"', '\x60']

theorem holds_word_of_not_mem {c : Char} (h : c ∉ separators) : Kind.word.holds c = true := by
  simp only [separators, List.mem_cons, List.not_mem_nil, or_false, not_or] at h
  simp [Kind.holds, Text.isGap, isSymbolChar, isPunctuation, h]

/-- A class without separators is a class of words. -/
theorem holds_word_of_class {p : Char → Bool} (hp : separators.any p = false) {c : Char}
    (h : p c = true) : Kind.word.holds c = true :=
  holds_word_of_not_mem fun hc => List.any_eq_false.mp hp c hc h

theorem spells_of_isIdentifier {s : String} (h : isIdentifier s = true) :
    Kind.word.spells s = true := by
  have hword : ∀ c, (isIdentifierChar c || c.isDigit) = true → Kind.word.holds c = true :=
    fun c => holds_word_of_class (p := fun c => isIdentifierChar c || c.isDigit) rfl
  rw [isIdentifier] at h
  cases hs : s.toList with
  | nil =>
    rw [hs] at h
    exact absurd h Bool.false_ne_true
  | cons c cs =>
    rw [hs, Bool.and_eq_true] at h
    rw [Kind.spells, hs, List.all_cons, Bool.and_eq_true, Bool.and_eq_true]
    refine ⟨by simp, hword c (by rw [h.1, Bool.true_or]), List.all_eq_true.mpr fun d hd => ?_⟩
    exact hword d (List.all_eq_true.mp h.2 d hd)

theorem mem_unsigned {cs : List Char} {c : Char} (h : c ∈ cs) :
    c ∈ unsigned cs ∨ c = '+' ∨ c = '-' := by
  unfold unsigned
  split
  · rcases List.mem_cons.mp h with h | h
    · exact Or.inr (Or.inl h)
    · exact Or.inl h
  · rcases List.mem_cons.mp h with h | h
    · exact Or.inr (Or.inr h)
    · exact Or.inl h
  · exact Or.inl h

/-- A decimal begins with a digit after its sign, and has no others than digits and a point. -/
theorem unsigned_of_isDecimal {s : String} (h : isDecimal s = true) :
    unsigned s.toList ≠ [] ∧ ∀ c ∈ unsigned s.toList, c.isDigit = true ∨ c = '.' := by
  have hdigits : ∀ {cs}, isDigits cs = true → cs ≠ [] ∧ ∀ c ∈ cs, c.isDigit = true := by
    intro cs hcs
    rw [isDigits, Bool.and_eq_true, decide_eq_true_iff, List.all_eq_true] at hcs
    exact hcs
  have hparts : ['.'].intercalate ((unsigned s.toList).splitOn '.') = unsigned s.toList :=
    List.intercalate_splitOn '.'
  rw [isDecimal] at h
  split at h
  · rename_i whole hsplit
    rw [hsplit, List.intercalate_singleton] at hparts
    rw [← hparts]
    exact ⟨(hdigits h).1, fun c hc => Or.inl ((hdigits h).2 c hc)⟩
  · rename_i whole fraction hsplit
    rw [Bool.and_eq_true] at h
    rw [hsplit, List.intercalate_cons_cons, List.intercalate_singleton] at hparts
    rw [← hparts]
    refine ⟨by simp, fun c hc => ?_⟩
    simp only [List.mem_append, List.mem_singleton] at hc
    rcases hc with (hc | hc) | hc
    · exact Or.inl ((hdigits h.1).2 c hc)
    · exact Or.inr hc
    · exact Or.inl ((hdigits h.2).2 c hc)
  · exact absurd h Bool.false_ne_true

theorem spells_of_isDecimal {s : String} (h : isDecimal s = true) : Kind.word.spells s = true := by
  have hword : ∀ c, (c.isDigit || c ∈ ['.', '+', '-']) = true → Kind.word.holds c = true :=
    fun c => holds_word_of_class (p := fun c => c.isDigit || c ∈ ['.', '+', '-']) rfl
  obtain ⟨hne, hall⟩ := unsigned_of_isDecimal h
  rw [Kind.spells, Bool.and_eq_true, decide_eq_true_iff, List.all_eq_true]
  refine ⟨fun hnil => hne (by rw [hnil]; rfl), fun c hc => hword c ?_⟩
  simp only [Bool.or_eq_true, decide_eq_true_eq, List.mem_cons, List.not_mem_nil, or_false]
  rcases mem_unsigned hc with hc | hc
  · rcases hall c hc with hc | hc
    · exact Or.inl hc
    · exact Or.inr (Or.inl hc)
  · exact Or.inr (Or.inr hc)

/-! ### Variables -/

/-- A field filter in its envelope, or out of it. -/
inductive FieldEntry
  | enveloped (f : Filter)
  | decoded (f : FieldFilter)

def FieldEntry.matcher : FieldEntry → Matcher
  | enveloped f => Envelope.matcher f
  | decoded f => f.toMatcher

/-- The key is an identifier and the operator is known; the value is free. -/
def Matcher.Legal (m : Matcher) : Prop :=
  isIdentifier m.key = true ∧ isOperator m.operator = true

instance (m : Matcher) : Decidable m.Legal :=
  inferInstanceAs (Decidable (isIdentifier m.key = true ∧ isOperator m.operator = true))

theorem Matcher.Legal.writable {m : Matcher} (h : m.Legal) : m.Writable :=
  ⟨spells_of_isIdentifier h.1, h.2⟩

/-- The filters as variables hold them. -/
structure Variables where
  labels : List Filter
  metadata : List Filter
  fields : List FieldEntry
  lineFilters : List Filter
  patterns : List Pattern
  levels : List Filter

namespace Variables

def state (v : Variables) : FilterState where
  labels := matchers v.labels
  metadata := matchers v.metadata
  fields := v.fields.map FieldEntry.matcher
  lineFilters := matchers v.lineFilters
  patterns := v.patterns
  levels := matchers v.levels

structure Legal (v : Variables) : Prop where
  labels : ∀ f ∈ v.labels, f.toMatcher.Legal
  metadata : ∀ f ∈ v.metadata, f.toMatcher.Legal
  fields : ∀ f ∈ v.fields, f.matcher.Legal
  numbers : ∀ f ∈ v.fields, f.matcher.isNumeric = true → isDecimal f.matcher.value = true
  lineFilters : ∀ f ∈ v.lineFilters, LineFilter.Known f.toMatcher
  levels : ∀ f ∈ v.levels, '\x60' ∉ f.value.toList

theorem Legal.writable {v : Variables} (h : v.Legal) : v.state.Writable where
  labels := forall_mem_matchers fun f hf => (h.labels f hf).writable
  metadata := forall_mem_matchers fun f hf => (h.metadata f hf).writable
  fields := by
    intro m hm
    obtain ⟨f, hf, rfl⟩ := List.mem_map.mp hm
    exact (h.fields f hf).writable
  numbers := by
    intro m hm hnumeric
    obtain ⟨f, hf, rfl⟩ := List.mem_map.mp hm
    exact spells_of_isDecimal (h.numbers f hf hnumeric)
  lineFilters := forall_mem_matchers h.lineFilters
  levels := forall_mem_matchers h.levels

/-- **Nothing is lost or added in an expression.**  It is read, to its end, as
the clauses that the filters ask for. -/
theorem read?_state_expression (v : Variables) (h : v.Legal) :
    read? v.state.expression = some v.state.clauses :=
  FilterState.read?_expression h.writable

/-- Quotes, backslashes and stages inside of values are values. -/
theorem exists_legal_read :
    ∃ v : Variables, v.Legal ∧ read? v.state.expression = some
      [.selector [⟨"level", "=~", .quoted "a\\\"|b|\n"⟩, ⟨"host", "!~", .quoted ""⟩],
        .filter [⟨"pod", "!=", .quoted "\\\\\"\x7d |"⟩],
        .filter [⟨"detected_level", "=~", .raw "info\""⟩],
        .filter [⟨"user", "=", .quoted "\x60\""⟩],
        .filter [⟨"size", ">=", .bare "-1.5"⟩],
        .line "!~" "\x60", .line "|~" "(?i)a\\.b\"", .drop "or", .keep ["<_> \"x\""]] := by
  have hlegal : Legal {
      labels := [⟨⟨"level", "=", "a\\\""⟩, none, none⟩, ⟨⟨"host", "!~", emptyMarker⟩, none, none⟩,
        ⟨⟨"level", "=~", "b|\n"⟩, none, none⟩]
      metadata := [⟨⟨"pod", "!=", "\\\\\"\x7d |"⟩, none, none⟩]
      fields := [.decoded ⟨"size", ">=", ⟨"-1.5", .json⟩⟩,
        .enveloped ⟨⟨"user", "=", "\x7b\"value\":\"\x60\\\"\"\x7d"⟩, none, none⟩]
      lineFilters := [⟨⟨"caseInsensitive", "|=", "a.b\""⟩, none, none⟩,
        ⟨⟨"caseSensitive", "!~", "\x60"⟩, none, none⟩, ⟨⟨"caseSensitive", "|=", ""⟩, none, none⟩]
      patterns := [⟨"<_> \"x\"", .keep⟩, ⟨"or", .drop⟩]
      levels := [⟨⟨"", "", "info\""⟩, none, none⟩] } :=
    ⟨by decide, by decide, by decide, by decide, by decide, by decide⟩
  exact ⟨_, hlegal, (read?_state_expression _ hlegal).trans (by decide +kernel)⟩

end Variables

end LogQuery
