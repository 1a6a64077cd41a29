import LogQuery.Expression
import LogQuery.Proofs.LineOrder
import LogQuery.Proofs.Selector
import LogQuery.Proofs.Syntax.Printer
/-!
# The clauses of the filters

What a query asks for, category by category, said without reference to its text:
the conditions of each group with their raw values.  The fragments are the texts
of these clauses (`Selector.pieces_eq`, `Stage.metadata_eq_print` and its like);
quoting and escaping appear in those equations alone.
-/

namespace LogQuery

open Syntax

/-! ### Matchers -/

namespace Matcher

/-- The empty marker stands for the empty value. -/
def condition (m : Matcher) : Condition :=
  ⟨m.key, m.operator, .quoted (if m.value = emptyMarker then "" else m.value)⟩

def bareCondition (m : Matcher) : Condition := ⟨m.key, m.operator, .bare m.value⟩

theorem text_condition (m : Matcher) : m.condition.text = m.render := by
  have hquote : Literal.quote "" = emptyMarker := by decide
  by_cases hv : m.value = emptyMarker
  · rw [render, if_pos hv, condition, if_pos hv, Condition.text, Operand.text, hquote, hv]
  · rw [render, if_neg hv, condition, if_neg hv]
    rfl

theorem map_text_condition (ms : List Matcher) :
    (ms.map condition).map Condition.text = ms.map render := by
  rw [List.map_map]
  exact List.map_congr_left fun m _ => text_condition m

end Matcher

/-! ### Classes of matchers -/

def inclusive (ms : List Matcher) : List Matcher := ms.filter Matcher.isInclusive

def exclusive (ms : List Matcher) : List Matcher := ms.filter Matcher.isExclusive

/-- The inclusive matchers of each key, in the order in which the keys are first seen. -/
def inclusiveByKey (ms : List Matcher) : List (List Matcher) :=
  (keysOf Matcher.key (inclusive ms)).map (membersOf Matcher.key (inclusive ms))

/-- The exclusive matchers, those of one key together. -/
def exclusiveByKey (ms : List Matcher) : List Matcher :=
  (keysOf Matcher.key (exclusive ms)).flatMap (membersOf Matcher.key (exclusive ms))

/-! ### The selector -/

namespace Selector

/-- One condition for the matchers of a key; a single one keeps its operator. -/
def collapse (key : String) : List Matcher → Condition
  | [m] => m.condition
  | ms => ⟨key, Operator.matching.symbol, .quoted (Text.alternation (ms.map Matcher.value))⟩

def conditions (ms : List Matcher) : List Condition :=
  (keysOf Matcher.key (inclusive ms)).map
      (fun k => collapse k (membersOf Matcher.key (inclusive ms) k))
    ++ (exclusiveByKey ms).map Matcher.condition

/-- The condition that every stream meets. -/
def matchAll : Condition := ⟨"job", Operator.matching.symbol, .quoted ".+"⟩

def clause (ms : List Matcher) : Clause := .selector (if ms = [] then [matchAll] else conditions ms)

theorem text_collapse (k : String) (ms : List Matcher) :
    (collapse k ms).text = renderPositive (k, ms) := by
  have hmany : ∀ values,
      Condition.text ⟨k, Operator.matching.symbol, .quoted (Text.alternation values)⟩
      = Matcher.renderAlternation k Operator.matching.symbol values :=
    fun values => (Matcher.renderAlternation_eq k _ values).symm
  cases ms with
  | nil => exact hmany _
  | cons m ms =>
    cases ms with
    | nil => exact m.text_condition
    | cons n ms => exact hmany _

/-- **The matchers of a body are written from its conditions.** -/
theorem pieces_eq (ms : List Matcher) : pieces ms = (conditions ms).map Condition.text := by
  have hpositive : (Groups.ofMatchers ms).positive.map renderPositive
      = ((keysOf Matcher.key (inclusive ms)).map
          fun k => collapse k (membersOf Matcher.key (inclusive ms) k)).map Condition.text := by
    rw [Groups.positive_eq, List.map_map, List.map_map]
    exact List.map_congr_left fun k _ => (text_collapse k _).symm
  rw [pieces, conditions, List.map_append, hpositive, Groups.exclusive_eq,
    Matcher.map_text_condition]
  rfl

end Selector

/-! ### Stages -/

namespace Stage

/-- Matchers any of which may hold. -/
def clause (ms : List Matcher) : Clause := .filter (ms.map Matcher.condition)

def metadataClauses (ms : List Matcher) : List Clause :=
  (inclusiveByKey ms).map clause ++ (exclusiveByKey ms).map fun m => clause [m]

def levelClauses (ms : List Matcher) : List Clause :=
  if ms = [] then []
  else
    [.filter [⟨levelKey, Operator.matching.symbol,
      .raw (Text.alternation (ms.map Matcher.value))⟩]]

/-- The numeric comparisons come last. -/
def fieldClauses (ms : List Matcher) : List Clause :=
  let rest := ms.filter fun m => !m.isNumeric
  (inclusiveByKey rest).map clause ++ (exclusive rest).map (fun m => clause [m])
    ++ (ms.filter Matcher.isNumeric).map fun m => .filter [m.bareCondition]

theorem text_clause (k : String) (ms : List Matcher) : (clause ms).text = ofGroup (k, ms) := by
  rw [clause, Clause.text, Matcher.map_text_condition, String.append_assoc]
  rfl

theorem text_clause_singleton (m : Matcher) : (clause [m]).text = ofMatcher m := by
  rw [text_clause m.key, ofGroup, List.map_singleton, String.intercalate_singleton]
  rfl

theorem map_text_inclusiveByKey (ms : List Matcher) :
    ((inclusiveByKey ms).map clause).map Clause.text
      = (Groups.ofMatchers ms).positive.map ofGroup := by
  rw [inclusiveByKey, Groups.positive_eq, List.map_map, List.map_map, List.map_map]
  exact List.map_congr_left fun k _ => text_clause k _

theorem map_text_single (ms : List Matcher) :
    (ms.map fun m => clause [m]).map Clause.text = ms.map ofMatcher := by
  rw [List.map_map]
  exact List.map_congr_left fun m _ => text_clause_singleton m

theorem metadata_eq_print (ms : List Matcher) : metadata ms = print (metadataClauses ms) := by
  rw [metadata, print, metadataClauses, List.map_append, map_text_inclusiveByKey, map_text_single,
    Groups.exclusive_eq]
  rfl

theorem levels_eq_print (ms : List Matcher) : levels ms = print (levelClauses ms) := by
  by_cases hnil : ms = []
  · rw [levels, if_pos hnil, levelClauses, if_pos hnil]
    rfl
  · rw [levels, if_neg hnil, levelClauses, if_neg hnil, print, List.map_singleton,
      String.intercalate_singleton, Clause.text, List.map_singleton, String.intercalate_singleton,
      Condition.text, Operand.text, stage]
    simp only [String.append_assoc]
    rfl

theorem fields_eq_print (ms : List Matcher) : fields ms = print (fieldClauses ms) := by
  have hnumeric : ((ms.filter Matcher.isNumeric).map
      fun m => Clause.filter [m.bareCondition]).map Clause.text
      = (ms.filter Matcher.isNumeric).map fun m => stage m.renderBare := by
    rw [List.map_map]
    apply List.map_congr_left
    intro m _
    show "|" ++ " " ++ " or ".intercalate [m.bareCondition.text] = _
    rw [String.intercalate_singleton, String.append_assoc]
    rfl
  rw [fields, print, fieldClauses, List.map_append, List.map_append, map_text_inclusiveByKey,
    map_text_single, hnumeric]
  rfl

end Stage

/-! ### Line filters -/

namespace LineFilter

/-- The operator of a class as it is written: a filter that ignores case is a
regular expression. -/
def operatorOf : CaseMode × LineOperator → LineOperator
  | (.sensitive, operator) => operator
  | (.insensitive, .containing) => .matching
  | (.insensitive, .matching) => .matching
  | (.insensitive, .notContaining) => .notMatching
  | (.insensitive, .notMatching) => .notMatching

def textOf : CaseMode × LineOperator → String → String
  | (.sensitive, _), value => value
  | (.insensitive, .containing), value => "(?i)" ++ Literal.regexEscape value
  | (.insensitive, .notContaining), value => "(?i)" ++ Literal.regexEscape value
  | (.insensitive, .matching), value => "(?i)" ++ value
  | (.insensitive, .notMatching), value => "(?i)" ++ value

def clauseOf (c : CaseMode × LineOperator) (value : String) : Clause :=
  .line (operatorOf c).symbol (textOf c value)

def classClauses (ms : List Matcher) (c : CaseMode × LineOperator) : List Clause :=
  ((ms.filter (isOf c)).filter fun m => m.value ≠ "").map fun m => clauseOf c m.value

/-- Class by class; a filter without a value is none. -/
def clauses (ms : List Matcher) : List Clause := classes.flatMap (classClauses ms)

theorem text_line (operator value : String) :
    (Clause.line operator value).text = operator ++ (" \"" ++ (Literal.escape value ++ "\"")) := by
  have hopen : (" \"" : String) = " " ++ "\"" := by decide
  rw [Clause.text, Literal.quote, hopen]
  simp only [String.append_assoc]

/-- A mark that case does not matter needs no escape. -/
theorem text_line_caseMark (operator value : String) :
    (Clause.line operator ("(?i)" ++ value)).text
      = operator ++ (" \"(?i)" ++ (Literal.escape value ++ "\"")) := by
  have hmark : Literal.escape "(?i)" = "(?i)" := by decide
  have hopen : (" \"(?i)" : String) = " \"" ++ "(?i)" := by decide
  rw [text_line, Literal.escape_append, hmark, hopen]
  simp only [String.append_assoc]

/-- **A filter is written from its clause**; its key counts only as far as it says
that case does not matter. -/
theorem text_clauseOf {mode : CaseMode} {operator : LineOperator} {m : Matcher}
    (hmode : isInsensitive m = decide (mode = .insensitive))
    (hoperator : m.operator = operator.symbol) :
    (clauseOf (mode, operator) m.value).text = render m := by
  cases mode with
  | sensitive =>
    have hcase : isInsensitive m = false := hmode
    rw [render, hcase, if_neg Bool.false_ne_true, content, hcase, Bool.and_false,
      if_neg Bool.false_ne_true, hoperator, clauseOf, text_line]
    simp only [String.append_assoc]
    rfl
  | insensitive =>
    have hcase : isInsensitive m = true := hmode
    rw [render, hcase, if_pos rfl, content, hcase, Bool.and_true, isPlain, hoperator, clauseOf]
    cases operator <;>
    · rw [textOf, text_line_caseMark]
      simp only [String.append_assoc]
      rfl

theorem text_clauseOf_of_isOf {c : CaseMode × LineOperator} {m : Matcher}
    (h : isOf c m = true) : (clauseOf c m.value).text = render m := by
  rw [isOf, Bool.and_eq_true, decide_eq_true_iff, decide_eq_true_iff] at h
  obtain ⟨mode, operator⟩ := c
  have hkey : m.key = mode.key := h.1
  refine text_clauseOf ?_ h.2
  rw [isInsensitive, hkey]
  cases mode <;> decide

theorem renderAll_eq_print {ms : List Matcher} (h : ∀ m ∈ ms, Known m) :
    renderAll ms = print (clauses ms) := by
  rw [renderAll, print, clauses, sort_eq h, List.filter_flatMap, List.map_flatMap, List.map_flatMap]
  congr 1
  apply List.flatMap_congr
  intro c _
  rw [classClauses, List.map_map]
  apply List.map_congr_left
  intro m hm
  exact (text_clauseOf_of_isOf (List.mem_filter.mp (List.mem_filter.mp hm).1).2).symm

end LineFilter

/-! ### Patterns -/

namespace Pattern

/-- Each dropped pattern on its own, the kept ones as one alternative. -/
def clauses (ps : List Pattern) : List Clause :=
  let kept := ps.filter (·.mode = .keep)
  ((ps.filter (·.mode = .drop)).map fun p => .drop p.template)
    ++ if kept = [] then [] else [.keep (kept.map template)]

end Pattern

end LogQuery
