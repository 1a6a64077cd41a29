import LogQuery.Envelope
import LogQuery.Proofs.Clauses
/-!
# Reading an expression back

An expression is the text of its clauses: the selector, then the stages of every
category in their fixed order (`FilterState.expression_eq_print`).  A fragment
without clauses is left out together with its space.  So the reader, which knows
nothing of fragments, gives back the clauses (`FilterState.read?_expression`),
where keys are words, operators are known, and what stands in no double quotes
ends where it should.
-/

namespace LogQuery

open Syntax

/-! ### Fragments -/

namespace Syntax

theorem Clause.text_ne_empty (c : Clause) : c.text ≠ "" := by
  have hsymbol : ∀ s t : String, s ++ " " ++ t ≠ "" := by
    intro s t h
    rw [String.append_eq_empty_iff, String.append_eq_empty_iff] at h
    exact absurd h.1.2 (by decide)
  cases c with
  | selector cs =>
    intro h
    rw [text, String.append_eq_empty_iff] at h
    exact absurd h.2 (by decide)
  | filter cs => exact hsymbol _ _
  | line o s => exact hsymbol _ _
  | drop s => exact hsymbol _ _
  | keep ts => exact hsymbol _ _

theorem print_append {cs ds : List Clause} (hcs : cs ≠ []) (hds : ds ≠ []) :
    print (cs ++ ds) = print cs ++ " " ++ print ds := by
  rw [print, List.map_append]
  exact String.intercalate_append_of_ne_nil (by simpa using hcs) (by simpa using hds)

theorem print_eq_empty {cs : List Clause} : print cs = "" ↔ cs = [] := by
  constructor
  · intro h
    cases cs with
    | nil => rfl
    | cons c cs =>
      cases cs with
      | nil =>
        rw [print, List.map_singleton, String.intercalate_singleton] at h
        exact absurd h c.text_ne_empty
      | cons d ds =>
        rw [print, List.map_cons, List.map_cons, String.intercalate_cons_cons,
          String.append_eq_empty_iff, String.append_eq_empty_iff] at h
        exact absurd h.1.1 c.text_ne_empty
  · rintro rfl
    rfl

/-- **Fragments are put together as their clauses are.** -/
theorem joinNonEmpty_print (css : List (List Clause)) :
    Text.joinNonEmpty (css.map print) = print css.flatten := by
  induction css with
  | nil => rfl
  | cons cs css ih =>
    rw [Text.joinNonEmpty] at ih ⊢
    rw [List.map_cons, List.flatten_cons]
    by_cases hcs : cs = []
    · rw [List.filter_cons_of_neg (by simp [hcs, print_eq_empty]), ih, hcs, List.nil_append]
    · rw [List.filter_cons_of_pos (by simp [hcs, print_eq_empty])]
      by_cases hrest : css.flatten = []
      · have hnone : (css.map print).filter (· ≠ "") = [] := by
          apply List.filter_eq_nil_iff.mpr
          intro s hs
          obtain ⟨ds, hds, rfl⟩ := List.mem_map.mp hs
          simp [print_eq_empty, List.flatten_eq_nil_iff.mp hrest ds hds]
        rw [hnone, String.intercalate_singleton, hrest, List.append_nil]
      · have hsome : (css.map print).filter (· ≠ "") ≠ [] := by
          intro hnone
          rw [hnone, String.intercalate_nil] at ih
          exact hrest (print_eq_empty.mp ih.symm)
        rw [String.intercalate_cons_of_ne_nil hsome, ih, print_append hcs hrest]

end Syntax

theorem Pattern.renderAll_eq_print (ps : List Pattern) : renderAll ps = print (clauses ps) := by
  have hdropped : " ".intercalate ((ps.filter (·.mode = .drop)).map
      fun p => "!> " ++ Literal.quote p.template)
      = print ((ps.filter (·.mode = .drop)).map fun p => .drop p.template) := by
    rw [print, List.map_map]
    rfl
  have hkept : (if ps.filter (·.mode = .keep) = [] then ""
        else "|> " ++ " or ".intercalate
          ((ps.filter (·.mode = .keep)).map fun p => Literal.quote p.template))
      = print (if ps.filter (·.mode = .keep) = [] then []
        else [.keep ((ps.filter (·.mode = .keep)).map template)]) := by
    by_cases hnil : ps.filter (·.mode = .keep) = []
    · rw [if_pos hnil, if_pos hnil]
      rfl
    · rw [if_neg hnil, if_neg hnil, print, List.map_singleton, String.intercalate_singleton,
        Clause.text, List.map_map]
      rfl
  have hjoin := joinNonEmpty_print
    [(ps.filter (·.mode = .drop)).map fun p => Clause.drop p.template,
    if ps.filter (·.mode = .keep) = [] then []
      else [Clause.keep ((ps.filter (·.mode = .keep)).map template)]]
  rw [List.map_cons, List.map_singleton, List.flatten_cons, List.flatten_singleton] at hjoin
  rw [renderAll, hdropped, hkept, hjoin]
  rfl

/-! ### What can be read -/

theorem forall_mem_matchers {fs : List Filter} {P : Matcher → Prop}
    (h : ∀ f ∈ fs, P f.toMatcher) : ∀ m ∈ matchers fs, P m := by
  intro m hm
  obtain ⟨f, hf, rfl⟩ := List.mem_map.mp hm
  exact h f hf

/-- A word for the key, so that it ends where the operator begins. -/
structure Matcher.Writable (m : Matcher) : Prop where
  key : Kind.word.spells m.key = true
  operator : isOperator m.operator = true

theorem Matcher.Writable.condition {m : Matcher} (h : m.Writable) : m.condition.Readable :=
  ⟨h.key, h.operator, trivial⟩

theorem mem_inclusiveByKey {ms g : List Matcher} (h : g ∈ inclusiveByKey ms) :
    g ≠ [] ∧ ∀ m ∈ g, m ∈ ms := by
  obtain ⟨k, hk, rfl⟩ := List.mem_map.mp h
  refine ⟨fun hnil => membersOf_eq_nil.mp hnil hk, fun m hm => ?_⟩
  exact (List.mem_filter.mp (mem_membersOf.mp hm).1).1

theorem mem_exclusiveByKey {ms : List Matcher} {m : Matcher} (h : m ∈ exclusiveByKey ms) :
    m ∈ ms := by
  obtain ⟨k, -, hm⟩ := List.mem_flatMap.mp h
  exact (List.mem_filter.mp (mem_membersOf.mp hm).1).1

namespace Selector

theorem readable_collapse {k : String} {ms : List Matcher} (hne : ms ≠ [])
    (h : ∀ m ∈ ms, m.Writable ∧ m.key = k) : (collapse k ms).Readable := by
  cases ms with
  | nil => exact absurd rfl hne
  | cons m ms =>
    obtain ⟨hm, rfl⟩ := h m List.mem_cons_self
    cases ms with
    | nil => exact hm.condition
    | cons n ms => exact ⟨hm.key, isOperator_symbol .matching, trivial⟩

theorem readable_conditions {ms : List Matcher} (h : ∀ m ∈ ms, m.Writable) :
    ∀ c ∈ conditions ms, c.Readable := by
  intro c hc
  rcases List.mem_append.mp hc with hc | hc
  · obtain ⟨k, hk, rfl⟩ := List.mem_map.mp hc
    refine readable_collapse (fun hnil => membersOf_eq_nil.mp hnil hk) fun m hm => ?_
    obtain ⟨hm, hkey⟩ := mem_membersOf.mp hm
    exact ⟨h m (List.mem_filter.mp hm).1, hkey⟩
  · obtain ⟨m, hm, rfl⟩ := List.mem_map.mp hc
    exact (h m (mem_exclusiveByKey hm)).condition

theorem readable_clause {ms : List Matcher} (h : ∀ m ∈ ms, m.Writable) : (clause ms).Readable := by
  intro c hc
  by_cases hnil : ms = []
  · rw [if_pos hnil] at hc
    obtain rfl := List.mem_singleton.mp hc
    exact ⟨by decide, isOperator_symbol .matching, trivial⟩
  · rw [if_neg hnil] at hc
    exact readable_conditions h c hc

/-- A word does not begin with padding. -/
theorem unpadded_of_word {k : String} (h : Kind.word.spells k = true) : Unpadded k := by
  intro c hc
  obtain ⟨d, ds, hk, hd, -⟩ := exists_cons_of_spells h
  rw [hk] at hc
  obtain rfl := Option.some.inj hc
  rw [isPadding, Bool.or_eq_false_iff, decide_eq_false_iff_not, decide_eq_false_iff_not]
  constructor
  · rintro rfl
    exact absurd hd (by decide)
  · rintro rfl
    exact absurd hd (by decide)

theorem unpadded_text {c : Condition} (h : c.Readable) : Unpadded c.text := by
  intro d hd
  obtain ⟨e, es, hk, -, -⟩ := exists_cons_of_spells h.key
  rw [Condition.text, String.toList_append, String.toList_append, hk] at hd
  exact unpadded_of_word h.key d (by rw [hk]; exact hd)

theorem body_eq_conditions {ms : List Matcher} (h : ∀ m ∈ ms, m.Writable) :
    body ms = ", ".intercalate ((conditions ms).map Condition.text) := by
  rw [← pieces_eq]
  apply body_eq
  intro p hp
  rw [pieces_eq, List.head?_map] at hp
  obtain ⟨c, hc, rfl⟩ := Option.map_eq_some_iff.mp hp
  exact unpadded_text (readable_conditions h c (List.mem_of_mem_head? hc))

/-- **The selector is written from its clause.** -/
theorem selector_eq_text {s : FilterState} (h : ∀ m ∈ s.labels, m.Writable) :
    s.fragments.selector = (clause s.labels).text := by
  show (if body s.labels = "" then all else "\x7b" ++ body s.labels ++ "\x7d") = _
  by_cases hnil : s.labels = []
  · rw [hnil]
    decide
  · rw [if_neg fun hempty => hnil (body_eq_empty.mp hempty), body_eq_conditions h, clause,
      if_neg hnil]
    rfl

end Selector

namespace Stage

theorem readable_clause {ms : List Matcher} (hne : ms ≠ []) (h : ∀ m ∈ ms, m.Writable) :
    (clause ms).Readable := by
  refine ⟨by simpa using hne, fun c hc => ?_⟩
  obtain ⟨m, hm, rfl⟩ := List.mem_map.mp hc
  exact (h m hm).condition

theorem readable_groups {ms : List Matcher} (h : ∀ m ∈ ms, m.Writable) :
    ∀ c ∈ (inclusiveByKey ms).map clause, c.Readable := by
  intro c hc
  obtain ⟨g, hg, rfl⟩ := List.mem_map.mp hc
  obtain ⟨hne, hmem⟩ := mem_inclusiveByKey hg
  exact readable_clause hne fun m hm => h m (hmem m hm)

theorem readable_single {ms : List Matcher} (h : ∀ m ∈ ms, m.Writable) :
    ∀ c ∈ ms.map fun m => clause [m], c.Readable := by
  intro c hc
  obtain ⟨m, hm, rfl⟩ := List.mem_map.mp hc
  apply readable_clause (List.cons_ne_nil m [])
  intro n hn
  rw [List.mem_singleton.mp hn]
  exact h m hm

theorem readable_metadataClauses {ms : List Matcher} (h : ∀ m ∈ ms, m.Writable) :
    ∀ c ∈ metadataClauses ms, c.Readable := by
  intro c hc
  rcases List.mem_append.mp hc with hc | hc
  · exact readable_groups h c hc
  · exact readable_single (fun m hm => h m (mem_exclusiveByKey hm)) c hc

theorem readable_levelClauses {ms : List Matcher} (h : ∀ m ∈ ms, '\x60' ∉ m.value.toList) :
    ∀ c ∈ levelClauses ms, c.Readable := by
  intro c hc
  by_cases hnil : ms = []
  · rw [levelClauses, if_pos hnil] at hc
    exact absurd hc List.not_mem_nil
  · rw [levelClauses, if_neg hnil, List.mem_singleton] at hc
    subst hc
    refine ⟨List.cons_ne_nil _ _, fun c hc => ?_⟩
    obtain rfl := List.mem_singleton.mp hc
    have hkey : Kind.word.spells levelKey = true := by decide
    refine ⟨hkey, isOperator_symbol .matching, ?_⟩
    exact (Text.not_mem_alternation (by decide)).mpr (List.forall_mem_map.mpr h)

theorem readable_fieldClauses {ms : List Matcher} (h : ∀ m ∈ ms, m.Writable)
    (hnumber : ∀ m ∈ ms, m.isNumeric = true → Kind.word.spells m.value = true) :
    ∀ c ∈ fieldClauses ms, c.Readable := by
  have hrest : ∀ m ∈ ms.filter fun m => !m.isNumeric, m.Writable := fun m hm =>
    h m (List.mem_filter.mp hm).1
  intro c hc
  rcases List.mem_append.mp hc with hc | hc
  · rcases List.mem_append.mp hc with hc | hc
    · exact readable_groups hrest c hc
    · exact readable_single (fun m hm => hrest m (List.mem_filter.mp hm).1) c hc
  · obtain ⟨m, hm, rfl⟩ := List.mem_map.mp hc
    obtain ⟨hm, hnumeric⟩ := List.mem_filter.mp hm
    refine ⟨List.cons_ne_nil _ _, fun c hc => ?_⟩
    obtain rfl := List.mem_singleton.mp hc
    exact ⟨(h m hm).key, (h m hm).operator, hnumber m hm hnumeric⟩

end Stage

theorem LineFilter.readable_clauses (ms : List Matcher) : ∀ c ∈ clauses ms, c.Readable := by
  intro c hc
  obtain ⟨k, -, hc⟩ := List.mem_flatMap.mp hc
  obtain ⟨m, -, rfl⟩ := List.mem_map.mp hc
  exact isLineOperator_symbol _

theorem Pattern.readable_clauses (ps : List Pattern) : ∀ c ∈ clauses ps, c.Readable := by
  intro c hc
  rcases List.mem_append.mp hc with hc | hc
  · obtain ⟨p, -, rfl⟩ := List.mem_map.mp hc
    exact trivial
  · by_cases hnil : ps.filter (·.mode = .keep) = []
    · rw [if_pos hnil] at hc
      exact absurd hc List.not_mem_nil
    · rw [if_neg hnil, List.mem_singleton] at hc
      subst hc
      show _ ≠ []
      simpa using hnil

/-! ### Expressions -/

namespace FilterState

/-- Operators and keys are as their categories ask for; values are free, but for
those that stand in no double quotes. -/
structure Writable (s : FilterState) : Prop where
  labels : ∀ m ∈ s.labels, m.Writable
  metadata : ∀ m ∈ s.metadata, m.Writable
  fields : ∀ m ∈ s.fields, m.Writable
  numbers : ∀ m ∈ s.fields, m.isNumeric = true → Kind.word.spells m.value = true
  lineFilters : ∀ m ∈ s.lineFilters, LineFilter.Known m
  levels : ∀ m ∈ s.levels, '\x60' ∉ m.value.toList

/-- What the filters ask for, in the order in which it is written. -/
def clauses (s : FilterState) : List Clause :=
  [[Selector.clause s.labels], Stage.metadataClauses s.metadata, Stage.levelClauses s.levels,
    Stage.fieldClauses s.fields, LineFilter.clauses s.lineFilters,
    Pattern.clauses s.patterns].flatten

/-- **An expression is the text of its clauses**, also where they cannot be read. -/
theorem expression_eq_print {s : FilterState} (hlabels : ∀ m ∈ s.labels, m.Writable)
    (hlines : ∀ m ∈ s.lineFilters, LineFilter.Known m) : s.expression = print s.clauses := by
  have hselector : s.fragments.selector = print [Selector.clause s.labels] := by
    rw [Selector.selector_eq_text hlabels, print, List.map_singleton,
      String.intercalate_singleton]
  rw [clauses, ← joinNonEmpty_print, expression, Fragments.expression, hselector]
  simp only [List.map_cons, List.map_nil, ← Stage.metadata_eq_print, ← Stage.levels_eq_print,
    ← Stage.fields_eq_print, ← LineFilter.renderAll_eq_print hlines,
    ← Pattern.renderAll_eq_print]
  rfl

theorem Writable.readable {s : FilterState} (h : s.Writable) : ∀ c ∈ s.clauses, c.Readable := by
  intro c hc
  simp only [clauses, List.flatten_cons, List.flatten_nil, List.append_nil, List.mem_append,
    List.mem_singleton] at hc
  rcases hc with rfl | hc | hc | hc | hc | hc
  · exact Selector.readable_clause h.labels
  · exact Stage.readable_metadataClauses h.metadata c hc
  · exact Stage.readable_levelClauses h.levels c hc
  · exact Stage.readable_fieldClauses h.fields h.numbers c hc
  · exact LineFilter.readable_clauses _ c hc
  · exact Pattern.readable_clauses _ c hc

/-- **An expression is read back** to what was asked for. -/
theorem read?_expression {s : FilterState} (h : s.Writable) :
    read? s.expression = some s.clauses := by
  rw [expression_eq_print h.labels h.lineFilters, read?_print h.readable]

end FilterState

end LogQuery
