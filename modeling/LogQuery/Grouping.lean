import LogQuery.Matcher
/-!
# Grouping by key

Groups stand in the order in which their keys are first seen, and keep the order of their members.
Matchers are grouped by key within each of the two classes of operators.
-/

namespace LogQuery

/-- `x` put to the group of `k`, which comes last if it is new. -/
def insertGroup {κ α : Type} [DecidableEq κ] (k : κ) (x : α) :
    List (κ × List α) → List (κ × List α)
  | [] => [(k, [x])]
  | (k', xs) :: gs => if k' = k then (k', xs ++ [x]) :: gs else (k', xs) :: insertGroup k x gs

def groupBy {κ α : Type} [DecidableEq κ] (key : α → κ) (xs : List α) : List (κ × List α) :=
  xs.foldl (fun gs x => insertGroup (key x) x gs) []

abbrev Group := String × List Matcher

/-- Matchers of one key and class: among the inclusive ones any may hold, of the exclusive ones
all must. -/
structure Groups where
  positive : List Group
  negative : List Group

namespace Groups

def ofMatchers (ms : List Matcher) : Groups where
  positive := groupBy Matcher.key (ms.filter Matcher.isInclusive)
  negative := groupBy Matcher.key (ms.filter Matcher.isExclusive)

/-- The exclusive matchers, group by group. -/
def exclusive (g : Groups) : List Matcher := g.negative.flatMap Prod.snd

end Groups

end LogQuery
