import LogQuery.Proofs.Expression
import Mathlib.Computability.RegularExpressions
/-!
# What line filters ask for

A filter that tells the cases apart, or whose key says nothing about case, is
written with its own operator and its text.  One that ignores case is always
written as a regular expression; if it is to contain a text, that text becomes an
expression of literal characters, which matches it and nothing else
(`Literal.matchesOnly_iff`).  Both rules together say what each filter asks for
(`LineFilter.Asks`), and the filters are read back to just that, in their order
(`LineFilter.read?_renderAll`).
-/

namespace LogQuery

open Syntax

/-! ### Expressions of literal characters -/

namespace Literal

/-- The regular expression that is written with literal characters and escaped
metacharacters alone; there is none for any other text. -/
def expression? : List Char → Option (RegularExpression Char)
  | [] => some 1
  | '\\' :: c :: cs =>
    if isMeta c then (expression? cs).map fun e => .char c * e else none
  | c :: cs =>
    if isMeta c then none else (expression? cs).map fun e => .char c * e

/-- The text is an expression of literal characters that matches `v` and nothing
else. -/
def MatchesOnly (text v : String) : Prop :=
  ∃ e, expression? text.toList = some e ∧ e.matches' = {v.toList}

theorem escapeMeta_cons_of_meta {c : Char} (h : isMeta c = true) (cs : List Char) :
    escapeMeta (c :: cs) = '\\' :: c :: escapeMeta cs := by
  rw [escapeMeta, List.flatMap_cons, if_pos h]
  rfl

theorem escapeMeta_cons_of_literal {c : Char} (h : isMeta c = false) (cs : List Char) :
    escapeMeta (c :: cs) = c :: escapeMeta cs := by
  rw [escapeMeta, List.flatMap_cons, h, if_neg Bool.false_ne_true]
  rfl

theorem expression?_literal {c : Char} (h : isMeta c = false) (cs : List Char) :
    expression? (c :: cs) = (expression? cs).map fun e => .char c * e := by
  have hc : c ≠ '\\' := by
    rintro rfl
    exact absurd h (by decide)
  rw [expression?, h, if_neg Bool.false_ne_true]
  exact fun _ _ hbackslash _ => hc hbackslash

theorem matches'_char_mul {c : Char} {e : RegularExpression Char} {v : List Char}
    (h : e.matches' = {v}) : (.char c * e : RegularExpression Char).matches' = {c :: v} := by
  rw [RegularExpression.matches'_mul, RegularExpression.matches'_char, h]
  exact Set.image2_singleton

/-- Escaping gives an expression, and it matches the text. -/
theorem expression?_escapeMeta (v : List Char) :
    ∃ e, expression? (escapeMeta v) = some e ∧ e.matches' = {v} := by
  induction v with
  | nil => exact ⟨1, rfl, RegularExpression.matches'_epsilon⟩
  | cons c cs ih =>
    obtain ⟨e, he, hmatches⟩ := ih
    refine ⟨.char c * e, ?_, matches'_char_mul hmatches⟩
    cases hc : isMeta c with
    | false =>
      rw [escapeMeta_cons_of_literal hc, expression?_literal hc, he, Option.map_some]
    | true => rw [escapeMeta_cons_of_meta hc, expression?, if_pos hc, he, Option.map_some]

/-- What is an expression of literal characters is the escaped text that it matches. -/
theorem eq_escapeMeta_of_expression? {cs : List Char} {e : RegularExpression Char}
    (h : expression? cs = some e) : ∃ v, cs = escapeMeta v ∧ e.matches' = {v} := by
  induction cs using expression?.induct generalizing e with
  | case1 =>
    obtain rfl := Option.some.inj h
    exact ⟨[], rfl, RegularExpression.matches'_epsilon⟩
  | case2 c cs hc ih =>
    rw [expression?, if_pos hc] at h
    obtain ⟨e, he, rfl⟩ := Option.map_eq_some_iff.mp h
    obtain ⟨v, rfl, hmatches⟩ := ih he
    exact ⟨c :: v, (escapeMeta_cons_of_meta hc v).symm, matches'_char_mul hmatches⟩
  | case3 c cs hc =>
    rw [expression?, if_neg hc] at h
    exact absurd h.symm (Option.some_ne_none e)
  | case4 c cs hescape hc =>
    rw [expression?, if_pos hc] at h
    · exact absurd h.symm (Option.some_ne_none e)
    · exact hescape
  | case5 c cs hescape hc ih =>
    rw [Bool.not_eq_true] at hc
    rw [expression?_literal hc] at h
    obtain ⟨e, he, rfl⟩ := Option.map_eq_some_iff.mp h
    obtain ⟨v, rfl, hmatches⟩ := ih he
    exact ⟨c :: v, (escapeMeta_cons_of_literal hc v).symm, matches'_char_mul hmatches⟩

/-- **One expression of literal characters matches a text alone**: the text with
its metacharacters escaped. -/
theorem matchesOnly_iff {text v : String} : MatchesOnly text v ↔ text = regexEscape v := by
  constructor
  · rintro ⟨e, he, hmatches⟩
    obtain ⟨w, htext, hw⟩ := eq_escapeMeta_of_expression? he
    have hsame : w = v.toList := Set.singleton_injective (hw.symm.trans hmatches)
    rw [regexEscape, ← hsame, ← htext, String.ofList_toList]
  · rintro rfl
    rw [MatchesOnly, regexEscape, String.toList_ofList]
    exact expression?_escapeMeta v.toList

end Literal

/-! ### What a filter asks for -/

namespace LineFilter

/-- The operator and the text of the stage that a filter asks for. -/
inductive Asks (m : Matcher) : String → String → Prop
  | asWritten (hkey : m.key ≠ CaseMode.insensitive.key) : Asks m m.operator m.value
  | expression (hkey : m.key = CaseMode.insensitive.key)
      (hoperator : m.operator = LineOperator.matching.symbol
        ∨ m.operator = LineOperator.notMatching.symbol) :
      Asks m m.operator ("(?i)" ++ m.value)
  | containing {text : String} (hkey : m.key = CaseMode.insensitive.key)
      (hoperator : m.operator = LineOperator.containing.symbol)
      (htext : Literal.MatchesOnly text m.value) :
      Asks m LineOperator.matching.symbol ("(?i)" ++ text)
  | notContaining {text : String} (hkey : m.key = CaseMode.insensitive.key)
      (hoperator : m.operator = LineOperator.notContaining.symbol)
      (htext : Literal.MatchesOnly text m.value) :
      Asks m LineOperator.notMatching.symbol ("(?i)" ++ text)

/-- What is left out stays out, whatever operator is written for it. -/
theorem Asks.isExclusive_eq {m : Matcher} {o text : String} (h : Asks m o text) :
    Symbol.isExclusive o = m.isExclusive := by
  cases h with
  | asWritten => rfl
  | expression => rfl
  | containing hkey hoperator htext =>
    rw [Matcher.isExclusive, hoperator]
    decide
  | notContaining hkey hoperator htext =>
    rw [Matcher.isExclusive, hoperator]
    decide

/-- **A filter is written as the stage that it asks for.** -/
theorem exists_asks {m : Matcher} {operator : LineOperator} (h : m.operator = operator.symbol) :
    ∃ o text, Asks m o text ∧ isLineOperator o = true ∧ (Clause.line o text).text = render m := by
  by_cases hkey : m.key = CaseMode.insensitive.key
  · have hwritten : (clauseOf (.insensitive, operator) m.value).text = render m :=
      text_clauseOf (decide_eq_true hkey) h
    refine ⟨_, _, ?_, isLineOperator_symbol _, hwritten⟩
    have hvalue : Literal.MatchesOnly (Literal.regexEscape m.value) m.value :=
      Literal.matchesOnly_iff.mpr rfl
    cases operator with
    | containing => exact .containing hkey h hvalue
    | notContaining => exact .notContaining hkey h hvalue
    | matching => exact h ▸ .expression hkey (Or.inl h)
    | notMatching => exact h ▸ .expression hkey (Or.inr h)
  · have hwritten : (clauseOf (.sensitive, operator) m.value).text = render m :=
      text_clauseOf (decide_eq_false hkey) h
    exact ⟨_, _, h ▸ .asWritten hkey, isLineOperator_symbol _, hwritten⟩

/-- **Line filters are read back** to what they ask for, in their order, but for
those without a value.  What is kept or left out stays so. -/
theorem read?_renderAll {ms : List Matcher}
    (h : ∀ m ∈ ms, ∃ operator : LineOperator, m.operator = operator.symbol) :
    sort ms = inOrder ms ∧ ∃ stages : List (String × String),
      read? (renderAll ms) = some (stages.map fun s => .line s.1 s.2)
      ∧ List.Forall₂ (fun m s => Asks m s.1 s.2 ∧ Symbol.isExclusive s.1 = m.isExclusive)
        ((inOrder ms).filter fun m => m.value ≠ "") stages := by
  have hstage : ∀ m ∈ (inOrder ms).filter (fun m => m.value ≠ ""), ∃ s : String × String,
      Asks m s.1 s.2 ∧ isLineOperator s.1 = true ∧ (Clause.line s.1 s.2).text = render m := by
    intro m hm
    obtain ⟨operator, ho⟩ := h m (mem_inOrder (List.mem_filter.mp hm).1)
    obtain ⟨o, text, hstage⟩ := exists_asks ho
    exact ⟨(o, text), hstage⟩
  choose! stage hasks hoperator htext using hstage
  refine ⟨sort_eq_inOrder h, ((inOrder ms).filter fun m => m.value ≠ "").map stage, ?_, ?_⟩
  · have hprint : renderAll ms = print ((((inOrder ms).filter fun m => m.value ≠ "").map stage).map
        fun s => .line s.1 s.2) := by
      rw [renderAll, sort_eq_inOrder h, print, List.map_map, List.map_map]
      exact congrArg _ (List.map_congr_left fun m hm => (htext m hm).symm)
    rw [hprint]
    apply read?_print
    intro c hc
    obtain ⟨s, hs, rfl⟩ := List.mem_map.mp hc
    obtain ⟨m, hm, rfl⟩ := List.mem_map.mp hs
    exact hoperator m hm
  · rw [List.forall₂_map_right_iff, List.forall₂_same]
    exact fun m hm => ⟨hasks m hm, (hasks m hm).isExclusive_eq⟩

/-- A key that is no case mode, a text with all that is escaped, an expression, and a
filter without a value. -/
def mixed : List Matcher :=
  [⟨"anyCase", "!~", "\\d\"|\x60"⟩, ⟨"caseInsensitive", "!=", "(a.b)\\\"\n"⟩,
    ⟨"caseInsensitive", "|~", "x|y"⟩, ⟨"caseSensitive", "|=", ""⟩]

theorem read?_renderAll_mixed :
    (∀ m ∈ mixed, ∃ operator : LineOperator, m.operator = operator.symbol)
    ∧ ∃ stages : List (String × String),
      read? (renderAll mixed) = some (stages.map fun s => .line s.1 s.2)
      ∧ List.Forall₂ (fun m s => Asks m s.1 s.2 ∧ Symbol.isExclusive s.1 = m.isExclusive)
        ((inOrder mixed).filter fun m => m.value ≠ "") stages := by
  have hoperator : ∀ m ∈ mixed, ∃ operator : LineOperator, m.operator = operator.symbol := by
    simp only [mixed, List.forall_mem_cons, List.not_mem_nil, false_implies, implies_true, and_true]
    exact ⟨⟨.notMatching, rfl⟩, ⟨.notContaining, rfl⟩, ⟨.matching, rfl⟩, ⟨.containing, rfl⟩⟩
  exact ⟨hoperator, (read?_renderAll hoperator).2⟩

example : read? (render ⟨"caseInsensitive", "!=", "(a.b)\\\"\n"⟩)
    = some [.line "!~" "(?i)\\(a\\.b\\)\\\\\"\n"] := by
  decide +kernel

end LineFilter

end LogQuery
