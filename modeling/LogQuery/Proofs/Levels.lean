import LogQuery.Proofs.Expression
import LogQuery.Proofs.Syntax.RawLiteral
/-!
# Levels and their literal

The levels of a query are the only texts that stand in backticks, where nothing is
escaped.  A level without a backtick stays a level, whatever else it has; one with
a backtick never does, and what comes after the backtick is read as more of the
query (`Stage.levels_confined_iff`).
-/

namespace LogQuery

open Syntax

namespace FilterState

/-- The clauses before those of levels. -/
def beforeLevels (s : FilterState) : List Clause :=
  Selector.clause s.labels :: Stage.metadataClauses s.metadata

/-- The clauses after those of levels. -/
def afterLevels (s : FilterState) : List Clause :=
  Stage.fieldClauses s.fields ++ LineFilter.clauses s.lineFilters ++ Pattern.clauses s.patterns

theorem clauses_with_levels (s : FilterState) (ms : List Matcher) :
    ({ s with levels := ms } : FilterState).clauses
      = s.beforeLevels ++ (Stage.levelClauses ms ++ s.afterLevels) := by
  simp only [clauses, beforeLevels, afterLevels, List.flatten_cons, List.flatten_nil,
    List.append_nil, List.append_assoc, List.cons_append, List.nil_append]

end FilterState

namespace Stage

variable {ms : List Matcher}

/-- The clause of some levels. -/
def levelClause (ms : List Matcher) : Clause :=
  rawStage levelKey Operator.matching.symbol (Text.alternation (ms.map Matcher.value))

theorem levelClauses_eq (hne : ms ≠ []) : levelClauses ms = [levelClause ms] := if_neg hne

theorem levels_eq_text (hne : ms ≠ []) : levels ms = (levelClause ms).text := by
  rw [levels_eq_print, levelClauses_eq hne, print, List.map_singleton,
    String.intercalate_singleton]

theorem backtick_not_mem_alternation :
    '\x60' ∉ (Text.alternation (ms.map Matcher.value)).toList
      ↔ ∀ m ∈ ms, '\x60' ∉ m.value.toList := by
  rw [Text.not_mem_alternation (by decide), List.forall_mem_map]

/-- **Levels stay in their literal if and only if they have no backtick.**  They are
written between two backticks.  Where no level has one, this is a single literal up
to the last character, and the expression around it is read as the clauses of its
filters; where a level has one, neither is true. -/
theorem levels_confined_iff (hne : ms ≠ []) :
    levels ms = "| detected_level=~"
        ++ ("\x60" ++ Text.alternation (ms.map Matcher.value) ++ "\x60")
    ∧ (scan? (levels ms) = some [.symbol "|", .word levelKey, .symbol Operator.matching.symbol,
          .raw (Text.alternation (ms.map Matcher.value))]
        ↔ ∀ m ∈ ms, '\x60' ∉ m.value.toList)
    ∧ ∀ s : FilterState, ({ s with levels := [] } : FilterState).Writable →
      (read? ({ s with levels := ms } : FilterState).expression
          = some ({ s with levels := ms } : FilterState).clauses
        ↔ ∀ m ∈ ms, '\x60' ∉ m.value.toList) := by
  have hkey : Kind.word.spells levelKey = true := by decide
  have hoperator := isOperator_symbol .matching
  refine ⟨?_, ?_, fun s hs => ?_⟩
  · have hopen : "| detected_level=~" = "| " ++ (levelKey ++ Operator.matching.symbol) := by decide
    rw [levels, if_neg hne, stage, hopen]
    simp only [String.append_assoc]
  · rw [levels_eq_text hne, ← backtick_not_mem_alternation]
    exact scan?_rawStage hkey hoperator
  · have hothers := hs.readable
    rw [FilterState.clauses_with_levels, levelClauses, if_pos rfl, List.nil_append] at hothers
    obtain ⟨hfront, hback⟩ := List.forall_mem_append.mp hothers
    have hprint : ({ s with levels := ms } : FilterState).expression = _ :=
      FilterState.expression_eq_print hs.labels hs.lineFilters
    rw [hprint, FilterState.clauses_with_levels, levelClauses_eq hne, ← backtick_not_mem_alternation]
    exact read?_print_rawStage hfront hback hkey hoperator

/-- Quotes, backslashes, line breaks and stages in levels, with backticks around them. -/
theorem levels_confined_hardTexts :
    let s : FilterState := {
      labels := [⟨"app", "=", "\x60"⟩]
      fields := [⟨"size", ">", "5"⟩]
      lineFilters := [⟨"caseSensitive", "|=", "\x60"⟩]
      levels := [⟨"", "", "a\" | b=\"c"⟩, ⟨"", "", "\\\n\x7d"⟩, ⟨"", "", ""⟩] }
    read? s.expression = some
      [.selector [⟨"app", "=", .quoted "\x60"⟩],
        .filter [⟨levelKey, "=~", .raw "a\" | b=\"c|\\\n\x7d|"⟩],
        .filter [⟨"size", ">", .bare "5"⟩], .line "|=" "\x60"] := by
  intro s
  have hothers : ({ s with levels := [] } : FilterState).Writable := {
    labels := List.forall_mem_singleton.mpr ⟨by decide, by decide⟩
    metadata := List.forall_mem_nil _
    fields := List.forall_mem_singleton.mpr ⟨by decide, by decide⟩
    numbers := by decide
    lineFilters := by decide
    levels := List.forall_mem_nil _ }
  have hlevels : s.levels ≠ [] := List.cons_ne_nil _ _
  obtain ⟨-, -, hread⟩ := levels_confined_iff hlevels
  exact ((hread s hothers).mpr (by decide)).trans (by decide +kernel)

/-- A level that ends its literal and adds a stage. -/
theorem levels_add_stage :
    let ms : List Matcher := [⟨"", "", "info\x60 | pod=\x60x"⟩]
    levels ms = "| detected_level=~\x60info\x60 | pod=\x60x\x60"
      ∧ scan? (levels ms) = some [.symbol "|", .word levelKey, .symbol "=~", .raw "info",
        .symbol "|", .word "pod", .symbol "=", .raw "x"]
      ∧ ({ levels := ms } : FilterState).clauses = [.selector [Selector.matchAll],
        .filter [⟨levelKey, "=~", .raw "info\x60 | pod=\x60x"⟩]]
      ∧ read? ({ levels := ms } : FilterState).expression = some [.selector [Selector.matchAll],
        .filter [⟨levelKey, "=~", .raw "info"⟩], .filter [⟨"pod", "=", .raw "x"⟩]] := by
  decide +kernel

end Stage

end LogQuery
