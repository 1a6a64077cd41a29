import LogQuery.Proofs.Scope
/-!
# Joining what is joined

A class is joined key by key, so that a joined class says of each key what its
group is joined to, and nothing else.  What two lists give together follows from
what each gives alone (`join_append_congr`).  As a join joined again is itself
(`join_join`), it does not matter which parts of the filters have been joined
before.
-/

namespace LogQuery

namespace Join

/-! ### One class -/

section Class

variable {operator : Operator} {k : String} {ms ms' ns ns' : List Matcher}

theorem joinGroup_of_many (hm : ms ≠ []) (hn : ns ≠ []) :
    joinGroup operator (k, ms ++ ns)
      = ⟨k, operator.symbol, Text.alternation ((ms ++ ns).map Matcher.value)⟩ := by
  cases ms with
  | nil => exact absurd rfl hm
  | cons m ms =>
    cases ms with
    | nil =>
      cases ns with
      | nil => exact absurd rfl hn
      | cons n ns => rfl
    | cons m' ms => rfl

/-- A class that is joined has a matcher for each key, which is joined to itself. -/
theorem joined_joined (operator : Operator) (ms : List Matcher) :
    joined operator (joined operator ms) = joined operator ms := by
  have hnodup : ((joined operator ms).map Matcher.key).Nodup := by
    rw [map_key_joined]
    exact nodup_keysOf Matcher.key ms
  show (groupBy Matcher.key (joined operator ms)).map (joinGroup operator) = joined operator ms
  rw [groupBy_of_nodup hnodup, List.map_map]
  exact List.map_id _

/-- **The group of two parts** is joined to what the parts alone say. -/
theorem joinGroup_append_congr
    (hm : joinGroup operator (k, ms') = joinGroup operator (k, ms)) (hm' : ms' = [] ↔ ms = [])
    (hn : joinGroup operator (k, ns') = joinGroup operator (k, ns)) (hn' : ns' = [] ↔ ns = []) :
    joinGroup operator (k, ms' ++ ns') = joinGroup operator (k, ms ++ ns) := by
  by_cases hms : ms = []
  · rw [hm'.mpr hms, hms]
    exact hn
  · by_cases hns : ns = []
    · rw [hn'.mpr hns, hns, List.append_nil, List.append_nil]
      exact hm
    · -- now there are several members, of which the values alone count
      have hvalues : ∀ {a b : List Matcher}, a ≠ [] → b ≠ [] →
          Text.alternation ((a ++ b).map Matcher.value)
            = (joinGroup operator (k, a)).value ++ "|" ++ (joinGroup operator (k, b)).value := by
        intro a b ha hb
        rw [value_joinGroup, value_joinGroup, List.map_append]
        exact String.intercalate_append_of_ne_nil (by simpa using ha) (by simpa using hb)
      have hms' : ms' ≠ [] := mt hm'.mp hms
      have hns' : ns' ≠ [] := mt hn'.mp hns
      rw [joinGroup_of_many hms' hns', joinGroup_of_many hms hns, hvalues hms' hns',
        hvalues hms hns, hm, hn]

theorem keysOf_eq_of_joined_eq (h : joined operator ms' = joined operator ms) :
    keysOf Matcher.key ms' = keysOf Matcher.key ms := by
  rw [← map_key_joined operator, h, map_key_joined]

/-- What a joined class says of a key. -/
theorem joinGroup_of_joined_eq (h : joined operator ms' = joined operator ms) (k : String) :
    joinGroup operator (k, membersOf Matcher.key ms' k)
        = joinGroup operator (k, membersOf Matcher.key ms k)
      ∧ (membersOf Matcher.key ms' k = [] ↔ membersOf Matcher.key ms k = []) := by
  have hkeys := keysOf_eq_of_joined_eq h
  refine ⟨?_, by rw [membersOf_eq_nil, membersOf_eq_nil, hkeys]⟩
  by_cases hk : k ∈ keysOf Matcher.key ms
  · rw [joined_eq, joined_eq, hkeys] at h
    exact List.map_inj_left.mp h k hk
  · rw [membersOf_eq_nil.mpr hk, membersOf_eq_nil.mpr (hkeys ▸ hk)]

/-- **Two parts of a class** are joined to what the parts alone are joined to. -/
theorem joined_append_congr (hm : joined operator ms' = joined operator ms)
    (hn : joined operator ns' = joined operator ns) :
    joined operator (ms' ++ ns') = joined operator (ms ++ ns) := by
  rw [joined_eq, joined_eq, keysOf_append, keysOf_append, keysOf_eq_of_joined_eq hm,
    keysOf_eq_of_joined_eq hn]
  refine List.map_congr_left fun k _ => ?_
  obtain ⟨hgroup, hnil⟩ := joinGroup_of_joined_eq hm k
  obtain ⟨hgroup', hnil'⟩ := joinGroup_of_joined_eq hn k
  rw [membersOf_append, membersOf_append]
  exact joinGroup_append_congr hgroup hnil hgroup' hnil'

end Class

/-! ### Both classes -/

theorem join_eq_joined (ms : List Matcher) :
    join ms = joined .matching (inclusive ms) ++ joined .notMatching (exclusive ms) := rfl

theorem join_join (ms : List Matcher) : join (join ms) = join ms := by
  rw [join_eq_joined (join ms), inclusive_join, exclusive_join, joined_joined,
    joined_joined, join_eq_joined]

/-- **What two lists are joined to** depends on what each of them is joined to. -/
theorem join_append_congr {ms ms' ns ns' : List Matcher} (hm : join ms' = join ms)
    (hn : join ns' = join ns) : join (ms' ++ ns') = join (ms ++ ns) := by
  have hinclusive : joined .matching (inclusive (ms' ++ ns'))
      = joined .matching (inclusive (ms ++ ns)) := by
    simp only [inclusive, List.filter_append]
    refine joined_append_congr ?_ ?_
    · exact (inclusive_join ms').symm.trans (hm ▸ inclusive_join ms)
    · exact (inclusive_join ns').symm.trans (hn ▸ inclusive_join ns)
  have hexclusive : joined .notMatching (exclusive (ms' ++ ns'))
      = joined .notMatching (exclusive (ms ++ ns)) := by
    simp only [exclusive, List.filter_append]
    refine joined_append_congr ?_ ?_
    · exact (exclusive_join ms').symm.trans (hm ▸ exclusive_join ms)
    · exact (exclusive_join ns').symm.trans (hn ▸ exclusive_join ns)
  rw [join_eq_joined, hinclusive, hexclusive, join_eq_joined]

/-- What joining leaves of `ms`: the inclusive matchers before the exclusive ones,
in each class one for a key, in the order in which the keys are first seen. -/
structure OnePerKey (ms ns : List Matcher) : Prop where
  classes : ns = inclusive ns ++ exclusive ns
  nodup_inclusive : ((inclusive ns).map Matcher.key).Nodup
  nodup_exclusive : ((exclusive ns).map Matcher.key).Nodup
  inclusive_keys : (inclusive ns).map Matcher.key = keysOf Matcher.key (inclusive ms)
  exclusive_keys : (exclusive ns).map Matcher.key = keysOf Matcher.key (exclusive ms)

theorem onePerKey_join (ms : List Matcher) : OnePerKey ms (join ms) where
  classes := by rw [inclusive_join, exclusive_join, join_eq_joined]
  nodup_inclusive := (nodup_keys_join ms).1
  nodup_exclusive := (nodup_keys_join ms).2
  inclusive_keys := by rw [inclusive_join, map_key_joined]
  exclusive_keys := by rw [exclusive_join, map_key_joined]

/-- **Joining absorbs earlier joins.**  Filters of which a part has been joined
are joined to what all of them are joined to, labels and origins included. -/
theorem joinFilters_absorbs (fs gs : List Filter) :
    joinFilters (joinFilters fs ++ gs) = joinFilters (fs ++ gs)
    ∧ joinFilters (fs ++ joinFilters gs) = joinFilters (fs ++ gs)
    ∧ joinFilters (joinFilters fs) = joinFilters fs
    ∧ OnePerKey (matchers fs) (matchers (joinFilters fs)) := by
  have hmatchers : ∀ hs : List Filter, matchers (joinFilters hs) = join (matchers hs) :=
    fun hs => matchers_toFilter _
  have happend : ∀ hs is : List Filter, matchers (hs ++ is) = matchers hs ++ matchers is :=
    fun hs is => List.map_append
  have hleft : join (matchers (joinFilters fs ++ gs)) = join (matchers (fs ++ gs)) := by
    rw [happend, happend, hmatchers]
    exact join_append_congr (join_join _) rfl
  have hright : join (matchers (fs ++ joinFilters gs)) = join (matchers (fs ++ gs)) := by
    rw [happend, happend, hmatchers]
    exact join_append_congr rfl (join_join _)
  refine ⟨congrArg (List.map Matcher.toFilter) hleft, congrArg (List.map Matcher.toFilter) hright,
    ?_, ?_⟩
  · rw [joinFilters, hmatchers, join_join, joinFilters]
  · rw [hmatchers]
    exact onePerKey_join (matchers fs)

end Join

end LogQuery
