import LogQuery.Proofs.LineOrder
import Mathlib.Data.Prod.Lex
/-!
# Precedence of line filters

A filter has a place among the case modes and one among the operators; whatever is
unknown comes last.  `Ordered` and `SameClasses` say what sorting does without a
word on how: one list alone is ordered and has the filters of each precedence as
they were (`eq_sort`).  So the way in which the classes are interleaved does not
show in the sorted list, and filters may be left out before or after
(`filter_sort`).
-/

namespace LogQuery.LineFilter

/-! ### Precedence -/

/-- How many case modes and how many operators go before those of the filter.
Before what is unknown all of them do. -/
def precedence (m : Matcher) : Nat × Nat :=
  ((([.sensitive, .insensitive] : List CaseMode).map CaseMode.key).idxOf m.key,
    (([.containing, .notContaining, .matching, .notMatching] : List LineOperator).map
      LineOperator.symbol).idxOf m.operator)

theorem precedence_eq (m : Matcher) : precedence m = (caseRank m.key, operatorRank m.operator) := by
  have hkey : (([.sensitive, .insensitive] : List CaseMode).map CaseMode.key).idxOf m.key
      = caseRank m.key := by
    simp only [List.map_cons, List.map_nil, caseRank]
    grind
  have hoperator : (([.containing, .notContaining, .matching, .notMatching] :
      List LineOperator).map LineOperator.symbol).idxOf m.operator = operatorRank m.operator := by
    simp only [List.map_cons, List.map_nil, operatorRank]
    grind
  rw [precedence, hkey, hoperator]

theorem precedence_fst_lt {m : Matcher} :
    (precedence m).1 < 2 ↔ ∃ mode : CaseMode, m.key = mode.key := by
  rw [precedence]
  refine List.idxOf_lt_length_iff.trans (List.mem_map.trans ?_)
  constructor
  · rintro ⟨mode, -, hkey⟩
    exact ⟨mode, hkey.symm⟩
  · rintro ⟨mode, hkey⟩
    exact ⟨mode, by cases mode <;> decide, hkey.symm⟩

theorem precedence_snd_lt {m : Matcher} :
    (precedence m).2 < 4 ↔ ∃ operator : LineOperator, m.operator = operator.symbol := by
  rw [precedence]
  refine List.idxOf_lt_length_iff.trans (List.mem_map.trans ?_)
  constructor
  · rintro ⟨operator, -, hsymbol⟩
    exact ⟨operator, hsymbol.symm⟩
  · rintro ⟨operator, hsymbol⟩
    exact ⟨operator, by cases operator <;> decide, hsymbol.symm⟩

theorem precedes_iff {a b : Matcher} :
    precedes a b = true ↔ toLex (precedence a) ≤ toLex (precedence b) := by
  rw [precedence_eq, precedence_eq, Prod.Lex.toLex_le_toLex, precedes, Bool.or_eq_true,
    Bool.and_eq_true, decide_eq_true_iff, decide_eq_true_iff, decide_eq_true_iff]

theorem rank_lt (m : Matcher) : rank m < 15 := by
  have hcase : caseRank m.key ≤ 2 := by
    unfold caseRank
    split_ifs <;> omega
  have hoperator := operatorRank_lt m.operator
  rw [rank]
  omega

/-- The rank of a filter tells its precedence. -/
theorem rank_eq_iff {m : Matcher} {i : Nat} : rank m = i ↔ precedence m = (i / 5, i % 5) := by
  have hoperator := operatorRank_lt m.operator
  rw [precedence_eq, rank, Prod.mk.injEq]
  omega

/-! ### Order and classes -/

def Ordered (ms : List Matcher) : Prop :=
  ms.Pairwise fun a b => toLex (precedence a) ≤ toLex (precedence b)

instance (ms : List Matcher) : Decidable (Ordered ms) :=
  inferInstanceAs (Decidable (ms.Pairwise fun a b => toLex (precedence a) ≤ toLex (precedence b)))

/-- The filters of each precedence are the same and in the same order, however the
classes are interleaved. -/
def SameClasses (ms ns : List Matcher) : Prop :=
  ∀ p, (ms.filter fun m => precedence m = p) = ns.filter fun m => precedence m = p

variable {ms ns : List Matcher}

theorem ordered_iff : Ordered ms ↔ ms.Pairwise fun a b => leRank rank a b = true := by
  simp only [Ordered, ← precedes_iff, precedes_eq_leRank]

theorem ordered_sort (ms : List Matcher) : Ordered (sort ms) := by
  rw [ordered_iff, sort, precedes_eq_leRank]
  exact List.pairwise_mergeSort (leRank_trans rank) (leRank_total rank) ms

theorem sameClasses_iff_rank : SameClasses ms ns ↔ ∀ i, classOf rank ms i = classOf rank ns i := by
  constructor
  · intro h i
    rw [classOf, classOf]
    simp only [rank_eq_iff]
    exact h (i / 5, i % 5)
  · intro h p
    -- the filters of a precedence are found among those of its rank
    have hrank : ∀ xs : List Matcher, (xs.filter fun m => precedence m = p)
        = (classOf rank xs (5 * p.1 + p.2)).filter fun m => precedence m = p := by
      intro xs
      rw [classOf, List.filter_filter]
      refine List.filter_congr fun m _ => ?_
      rw [Bool.eq_iff_iff, Bool.and_eq_true, decide_eq_true_iff, decide_eq_true_iff]
      refine ⟨fun hm => ⟨hm, ?_⟩, And.left⟩
      rw [rank, ← hm, precedence_eq]
    rw [hrank ms, hrank ns, h]

/-- The classes that can have members are fifteen. -/
theorem sameClasses_iff_lt :
    SameClasses ms ns ↔ ∀ i < 15, classOf rank ms i = classOf rank ns i := by
  rw [sameClasses_iff_rank]
  refine ⟨fun h i _ => h i, fun h i => ?_⟩
  by_cases hi : i < 15
  · exact h i hi
  · have hnone : ∀ xs : List Matcher, classOf rank xs i = [] := fun xs =>
      List.filter_eq_nil_iff.mpr fun m _ hm => hi (of_decide_eq_true hm ▸ rank_lt m)
    rw [hnone, hnone]

instance (ms ns : List Matcher) : Decidable (SameClasses ms ns) :=
  decidable_of_iff _ sameClasses_iff_lt.symm

/-- **Sorting is stable.** -/
theorem sameClasses_sort (ms : List Matcher) : SameClasses (sort ms) ms := by
  rw [sameClasses_iff_rank, sort, precedes_eq_leRank]
  exact classOf_mergeSort ms

/-- **One list alone is sorted from `ms`**: the ordered one of its classes. -/
theorem eq_sort (hordered : Ordered ns) (hclasses : SameClasses ns ms) : ns = sort ms := by
  have hranks : (List.range 15).Pairwise (· < ·) := List.pairwise_lt_range
  have hrank : ∀ xs : List Matcher, ∀ m ∈ xs, rank m ∈ List.range 15 := fun _ m _ =>
    List.mem_range.mpr (rank_lt m)
  have hns := eq_flatMap_of_pairwise (ordered_iff.mp hordered) hranks (hrank ns)
  rw [hns, sort, precedes_eq_leRank, mergeSort_eq_flatMap hranks (hrank ms)]
  exact List.flatMap_congr fun i _ => sameClasses_iff_rank.mp hclasses i

/-- **Sorting sees the classes alone.** -/
theorem sort_eq_sort_iff : sort ns = sort ms ↔ SameClasses ns ms := by
  constructor
  · intro h p
    rw [← sameClasses_sort ns p, h, sameClasses_sort ms p]
  · intro h
    exact eq_sort (ordered_sort ns) fun p => (sameClasses_sort ns p).trans (h p)

/-- Filters may be left out before sorting or after. -/
theorem filter_sort (q : Matcher → Bool) (ms : List Matcher) :
    (sort ms).filter q = sort (ms.filter q) := by
  refine eq_sort ((ordered_sort ms).filter q) fun p => ?_
  rw [List.filter_comm, sameClasses_sort ms p, List.filter_comm]

/-- **Line filters have one order.**  Their list is sorted by case mode, then by
operator, with what is unknown last and all else left as it was.  So the text does
not depend on how the classes are interleaved, nor on filters without a value. -/
theorem sort_canonical (ms : List Matcher) :
    (∀ m, ((precedence m).1 < 2 ↔ ∃ mode : CaseMode, m.key = mode.key)
      ∧ ((precedence m).2 < 4 ↔ ∃ operator : LineOperator, m.operator = operator.symbol))
    ∧ (sort ms).Perm ms ∧ Ordered (sort ms) ∧ SameClasses (sort ms) ms
    ∧ sort (sort ms) = sort ms
    ∧ (∀ ns, SameClasses ns ms → sort ns = sort ms ∧ renderAll ns = renderAll ms)
    ∧ renderAll (ms.filter fun m => m.value ≠ "") = renderAll ms := by
  refine ⟨fun m => ⟨precedence_fst_lt, precedence_snd_lt⟩, List.mergeSort_perm ms precedes,
    ordered_sort ms, sameClasses_sort ms, sort_eq_sort_iff.mpr (sameClasses_sort ms), ?_, ?_⟩
  · intro ns hclasses
    have hsort := sort_eq_sort_iff.mpr hclasses
    exact ⟨hsort, by rw [renderAll, hsort, renderAll]⟩
  · rw [renderAll, ← filter_sort, List.filter_filter, renderAll]
    simp only [Bool.and_self]

/-- Filters of four classes: of a known one with and without a value, of an unknown
key, and of an unknown operator. -/
def scattered : List Matcher :=
  [⟨"anyCase", "|=", "d"⟩, ⟨"caseSensitive", "!>", "c"⟩, ⟨"caseInsensitive", "!=", "b"⟩,
    ⟨"caseInsensitive", "!=", ""⟩, ⟨"caseSensitive", "|=", "e"⟩, ⟨"caseInsensitive", "!=", "a"⟩]

/-- The same filters, interleaved in another way. -/
def reordered : List Matcher :=
  [⟨"caseInsensitive", "!=", "b"⟩, ⟨"caseSensitive", "|=", "e"⟩, ⟨"caseInsensitive", "!=", ""⟩,
    ⟨"caseSensitive", "!>", "c"⟩, ⟨"caseInsensitive", "!=", "a"⟩, ⟨"anyCase", "|=", "d"⟩]

theorem sort_canonical_reordered :
    SameClasses reordered scattered ∧ sort reordered = sort scattered
      ∧ renderAll reordered = renderAll scattered := by
  have hclasses : SameClasses reordered scattered := by decide
  obtain ⟨-, -, -, -, -, hinterleaved, -⟩ := sort_canonical scattered
  exact ⟨hclasses, hinterleaved reordered hclasses⟩

end LogQuery.LineFilter
