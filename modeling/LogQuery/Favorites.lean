/-!
# Favorite values

The favorite values of each data source and key: a set kept as an ordered list without repetitions.
-/

namespace LogQuery

abbrev FavoriteKey := String × String

structure Favorites where
  entries : List (FavoriteKey × List String) := []

namespace Favorites

/-- `v` put to its place in an ordered list, if it is not there yet. -/
def insertValue (v : String) : List String → List String
  | [] => [v]
  | x :: xs => if v = x then x :: xs else if v < x then v :: x :: xs else x :: insertValue v xs

def insertAll (values : List String) (xs : List String) : List String :=
  values.foldl (fun xs v => insertValue v xs) xs

def get (s : Favorites) (k : FavoriteKey) : List String := (s.entries.lookup k).getD []

/-- The store with these values; of entries for the same key the last counts. -/
def ofEntries (entries : List (FavoriteKey × List String)) : Favorites :=
  ⟨entries.reverse.map fun e => (e.1, insertAll e.2 [])⟩

/-- The store with the values added. -/
def add (s : Favorites) (k : FavoriteKey) (values : List String) : Favorites :=
  ⟨(k, insertAll values (s.get k)) :: s.entries.filter (·.1 ≠ k)⟩

end Favorites

end LogQuery
