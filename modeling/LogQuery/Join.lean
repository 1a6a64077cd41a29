import LogQuery.Filter
import LogQuery.Grouping
/-!
# Joining filters

Before values are looked up the filters of a key are joined into one alternation per class. Then the
filters that would keep out the other values of the edited key are dropped, and those that the store
would not take without them.
-/

namespace LogQuery.Join

/-- One matcher for a group; a single member keeps its operator. -/
def joinGroup (operator : Operator) : Group → Matcher
  | (key, [m]) => ⟨key, m.operator, m.value⟩
  | (key, ms) => ⟨key, operator.symbol, Text.alternation (ms.map Matcher.value)⟩

def join (ms : List Matcher) : List Matcher :=
  let groups := Groups.ofMatchers ms
  groups.positive.map (joinGroup .matching) ++ groups.negative.map (joinGroup .notMatching)

/-- Joined filters have no labels and no origin. -/
def joinFilters (fs : List Filter) : List Filter := (join (matchers fs)).map Matcher.toFilter

/-! ## The scope of a lookup

Filters may stand with what the pickers attached to them or without it; `matcher` says what a member
asks for. -/

section Scope

variable {α : Type} (matcher : α → Matcher)

/-- An equality on the edited key would keep out its other values. -/
def dropEqualities (edited : Matcher) (xs : List α) : List α :=
  xs.filter fun x =>
    !(edited.isInclusive && (matcher x).key = edited.key
      && (matcher x).operator = Operator.equal.symbol)

/-- A key may not be left with exclusive filters alone. -/
def dropLoneKey (key : String) (xs : List α) : List α :=
  if xs.any fun x => (matcher x).key = key && (matcher x).isInclusive then xs
  else xs.filter fun x => (matcher x).key ≠ key

/-- Nor may the whole. -/
def dropLone (xs : List α) : List α :=
  if xs.any fun x => (matcher x).isInclusive then xs else []

/-- What of `xs` a lookup for `edited` is narrowed by. -/
def scopeBy (xs : List α) (edited : Matcher) : List α :=
  dropLone matcher (dropLoneKey matcher edited.key (dropEqualities matcher edited xs))

end Scope

def scope (ms : List Matcher) (edited : Matcher) : List Matcher := scopeBy id ms edited

/-- The filters that a lookup for `edited` is narrowed by. -/
def scopeFilters (fs : List Filter) (edited : Filter) : List Filter :=
  scopeBy Filter.toMatcher fs edited.toMatcher

end LogQuery.Join
