import LogQuery.Json.Basic
import LogQuery.Proofs.Grouping
/-!
# Members of objects

The last member of a name is the one that is found, and each name counts once in
the order in which the names are first seen.  An object without a name twice is its
own list of distinct members (`distinct_of_nodup`).  After members are set one after
another, each name has the value that was set last, or else its old one
(`find?_foldl_set`).
-/

namespace LogQuery.Json.Members

variable {ms : Members} {name : String} {v : Json}

/-! ### Members that are found -/

theorem find?_append (ms ns : Members) (name : String) :
    find? (ms ++ ns) name = (find? ns name).or (find? ms name) := by
  rw [find?, List.reverse_append, List.lookup_append]
  rfl

theorem find?_singleton (name : String) (v : Json) : find? [(name, v)] name = some v :=
  List.lookup_cons_self

theorem find?_eq_none : find? ms name = none ↔ ∀ m ∈ ms, m.1 ≠ name := by
  rw [find?, List.lookup_eq_none_iff]
  simp only [List.mem_reverse, bne_iff_ne, ne_comm]

theorem mem_of_find? (h : find? ms name = some v) : (name, v) ∈ ms := by
  obtain ⟨l₁, l₂, hsplit, -⟩ := List.lookup_eq_some_iff.mp h
  rw [← List.mem_reverse, hsplit]
  exact List.mem_append_right _ List.mem_cons_self

theorem exists_find? {m : String × Json} (h : m ∈ ms) : ∃ v, find? ms m.1 = some v := by
  apply Option.ne_none_iff_exists'.mp
  intro hnone
  exact find?_eq_none.mp hnone m h rfl

/-- A name that stands once has the value that stands there. -/
theorem find?_of_nodup (hnames : (ms.map Prod.fst).Nodup) {m : String × Json} (h : m ∈ ms) :
    find? ms m.1 = some m.2 := by
  obtain ⟨v, hv⟩ := exists_find? h
  have hsame : (m.1, v) = m := List.inj_on_of_nodup_map hnames (mem_of_find? hv) h rfl
  rw [hv, ← hsame]

/-! ### Each name once -/

theorem mem_of_mem_distinct {m : String × Json} (h : m ∈ distinct ms) : m ∈ ms := by
  obtain ⟨name, -, hm⟩ := List.mem_filterMap.mp h
  obtain ⟨v, hv, rfl⟩ := Option.map_eq_some_iff.mp hm
  exact mem_of_find? hv

theorem map_fst_distinct (ms : Members) : (distinct ms).map Prod.fst = keysOf Prod.fst ms := by
  have hnames : ∀ name ∈ keysOf Prod.fst ms,
      ((find? ms name).map fun v => (name, v)).map Prod.fst = some name := by
    intro name hname
    obtain ⟨m, hm, rfl⟩ := mem_keysOf.mp hname
    obtain ⟨v, hv⟩ := exists_find? hm
    rw [hv]
    rfl
  rw [distinct, List.map_filterMap, ← keysOf, List.filterMap_congr hnames, List.filterMap_some]

theorem distinct_of_nodup (hnames : (ms.map Prod.fst).Nodup) : distinct ms = ms := by
  have hself : ∀ m ∈ ms, (find? ms m.1).map (fun v => (m.1, v)) = some m := by
    intro m hm
    rw [find?_of_nodup hnames hm]
    rfl
  rw [distinct, ← keysOf, keysOf_of_nodup hnames, List.filterMap_map]
  exact (List.filterMap_congr hself).trans List.filterMap_some

/-! ### Members that are set -/

theorem find?_cons (m : String × Json) (ms : Members) (name : String) :
    find? (m :: ms) name = (find? ms name).or (if m.1 = name then some m.2 else none) := by
  rw [← List.singleton_append, find?_append]
  by_cases hm : m.1 = name
  · rw [if_pos hm, ← hm, ← find?_singleton m.1 m.2]
  · rw [if_neg hm, find?_eq_none.mpr (List.forall_mem_singleton.mpr hm)]

/-- Setting a member in its old places changes no other. -/
theorem find?_map_set (ms : Members) (name : String) (v : Json) (other : String) :
    find? (ms.map fun m => if m.1 == name then (name, v) else m) other
      = (find? ms other).map fun old => if other = name then v else old := by
  induction ms with
  | nil => rfl
  | cons m ms ih =>
    rw [List.map_cons, find?_cons, find?_cons, ih, Option.map_or]
    congr 1
    by_cases hm : m.1 = name <;> by_cases hother : m.1 = other
    · subst hm
      simp [hother]
    · subst hm
      simp [hother]
    · subst hother
      simp [hm]
    · simp [hm, hother]

/-- **A member that is set is found**, and the others as before. -/
theorem find?_set (ms : Members) (name : String) (v : Json) (other : String) :
    find? (ms.set name v) other = if other = name then some v else find? ms other := by
  unfold set
  split
  · rename_i hany
    rw [find?_map_set]
    by_cases hother : other = name
    · obtain ⟨m, hm, hname⟩ := List.any_eq_true.mp hany
      obtain ⟨old, hold⟩ := exists_find? hm
      rw [beq_iff_eq] at hname
      rw [if_pos hother, hother, ← hname, hold, Option.map_some, if_pos rfl]
    · simp only [if_neg hother, Option.map_id']
  · rw [find?_append]
    by_cases hother : other = name
    · rw [if_pos hother, hother, find?_singleton, Option.some_or]
    · rw [if_neg hother, find?_eq_none.mpr (List.forall_mem_singleton.mpr (Ne.symm hother)),
        Option.none_or]

/-- **Of members that are set one after another the last one counts**, and where none has the name
it keeps its value. -/
theorem find?_foldl_set (ns ms : Members) (name : String) :
    find? (ns.foldl (fun ms m => ms.set m.1 m.2) ms) name
      = (find? ns name).or (find? ms name) := by
  induction ns generalizing ms with
  | nil => rfl
  | cons n ns ih =>
    rw [List.foldl_cons, ih, find?_set, find?_cons]
    by_cases hn : name = n.1
    · subst hn
      cases find? ns n.1 <;> simp
    · cases find? ns name <;> simp [hn, Ne.symm hn]

end LogQuery.Json.Members
