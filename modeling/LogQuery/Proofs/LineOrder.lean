import LogQuery.LineFilter
import Mathlib.Data.List.Nodup
/-!
# The order of line filters

A stable sort by a rank lists the members rank by rank, each class in its own
order (`mergeSort_eq_flatMap`), and so class by class where each class has a rank
of its own (`mergeSort_eq_flatMap_filter`).  For line filters the rank is made of
the case mode and the operator, so that the sorted filters are one class after
another (`LineFilter.sort_eq`); filters whose key is no case mode come after all
others (`LineFilter.sort_eq_inOrder`).
-/

namespace LogQuery

section Ranked

variable {α : Type} (rank : α → Nat)

def leRank (a b : α) : Bool := rank a ≤ rank b

theorem leRank_trans (a b c : α) (hab : leRank rank a b = true) (hbc : leRank rank b c = true) :
    leRank rank a c = true := by
  rw [leRank, decide_eq_true_iff] at *
  exact Nat.le_trans hab hbc

theorem leRank_total (a b : α) : (leRank rank a b || leRank rank b a) = true := by
  rw [leRank, leRank, Bool.or_eq_true, decide_eq_true_iff, decide_eq_true_iff]
  exact Nat.le_total _ _

/-- The members of one rank. -/
def classOf (xs : List α) (i : Nat) : List α := xs.filter fun x => rank x = i

variable {rank}

theorem mem_classOf {xs : List α} {i : Nat} {x : α} :
    x ∈ classOf rank xs i ↔ x ∈ xs ∧ rank x = i := by
  rw [classOf, List.mem_filter, decide_eq_true_iff]

/-- **Sorting is stable**: it moves no member past another one of its rank. -/
theorem classOf_mergeSort (xs : List α) (i : Nat) :
    classOf rank (xs.mergeSort (leRank rank)) i = classOf rank xs i := by
  have hsorted : (classOf rank xs i).Pairwise fun a b => leRank rank a b = true := by
    apply List.pairwise_of_forall_mem_list
    intro a ha b hb
    rw [leRank, (mem_classOf.mp ha).2, (mem_classOf.mp hb).2]
    exact decide_eq_true (Nat.le_refl i)
  have hsub : (classOf rank xs i).Sublist (xs.mergeSort (leRank rank)) :=
    List.sublist_mergeSort (leRank_trans rank) (leRank_total rank) hsorted List.filter_sublist
  have hclass : (classOf rank xs i).Sublist (classOf rank (xs.mergeSort (leRank rank)) i) := by
    have hself : classOf rank (classOf rank xs i) i = classOf rank xs i :=
      List.filter_eq_self.mpr fun x hx => decide_eq_true (mem_classOf.mp hx).2
    rw [← hself]
    exact hsub.filter _
  have hlength : (classOf rank (xs.mergeSort (leRank rank)) i).length
      = (classOf rank xs i).length :=
    ((List.mergeSort_perm xs (leRank rank)).filter _).length_eq
  exact (hclass.eq_of_length hlength.symm).symm

/-- The members of the least rank come first in a sorted list. -/
theorem classOf_append_of_pairwise {xs : List α} (h : xs.Pairwise fun a b => leRank rank a b = true)
    {i : Nat} (hi : ∀ x ∈ xs, i ≤ rank x) :
    classOf rank xs i ++ xs.filter (fun x => rank x ≠ i) = xs := by
  induction xs with
  | nil => rfl
  | cons x xs ih =>
    obtain ⟨hx, hxs⟩ := List.pairwise_cons.mp h
    have ih' := ih hxs fun y hy => hi y (List.mem_cons_of_mem x hy)
    by_cases hrank : rank x = i
    · rw [classOf, List.filter_cons_of_pos (by simpa using hrank),
        List.filter_cons_of_neg (by simpa using hrank), ← classOf, List.cons_append, ih']
    · have hnone : classOf rank (x :: xs) i = [] := by
        apply List.filter_eq_nil_iff.mpr
        intro y hy
        have hlt : i < rank x := Nat.lt_of_le_of_ne (hi x List.mem_cons_self) (Ne.symm hrank)
        rw [decide_eq_true_iff]
        obtain rfl | hy := List.mem_cons.mp hy
        · exact hrank
        · have hle := of_decide_eq_true (hx y hy)
          omega
      have hall : (x :: xs).filter (fun x => rank x ≠ i) = x :: xs := by
        apply List.filter_eq_self.mpr
        intro y hy
        rw [decide_eq_true_iff]
        intro hy'
        have hmem : y ∈ classOf rank (x :: xs) i := mem_classOf.mpr ⟨hy, hy'⟩
        rw [hnone] at hmem
        exact List.not_mem_nil hmem
      rw [hnone, hall, List.nil_append]

/-- A sorted list is its classes one after another. -/
theorem eq_flatMap_of_pairwise {xs : List α} (h : xs.Pairwise fun a b => leRank rank a b = true)
    {ranks : List Nat} (hranks : ranks.Pairwise (· < ·)) (hxs : ∀ x ∈ xs, rank x ∈ ranks) :
    xs = ranks.flatMap (classOf rank xs) := by
  induction ranks generalizing xs with
  | nil =>
    rw [List.eq_nil_iff_forall_not_mem.mpr fun x hx => List.not_mem_nil (hxs x hx)]
    rfl
  | cons i ranks ih =>
    obtain ⟨hi, hranks⟩ := List.pairwise_cons.mp hranks
    have hleast : ∀ x ∈ xs, i ≤ rank x := by
      intro x hx
      obtain hrank | hrank := List.mem_cons.mp (hxs x hx)
      · exact Nat.le_of_eq hrank.symm
      · exact Nat.le_of_lt (hi _ hrank)
    have hrest : ∀ x ∈ xs.filter (fun x => rank x ≠ i), rank x ∈ ranks := by
      intro x hx
      obtain ⟨hx, hne⟩ := List.mem_filter.mp hx
      exact (List.mem_cons.mp (hxs x hx)).resolve_left (of_decide_eq_true hne)
    have hclasses : ranks.flatMap (classOf rank (xs.filter fun x => rank x ≠ i))
        = ranks.flatMap (classOf rank xs) := by
      apply List.flatMap_congr
      intro j hj
      rw [classOf, classOf, List.filter_filter]
      apply List.filter_congr
      intro x _
      have hne : i ≠ j := Nat.ne_of_lt (hi j hj)
      grind
    have ih' := ih (h.filter _) hranks hrest
    rw [hclasses] at ih'
    rw [List.flatMap_cons, ← ih', classOf_append_of_pairwise h hleast]

/-- **A stable sort goes rank by rank.** -/
theorem mergeSort_eq_flatMap {xs : List α} {ranks : List Nat} (hranks : ranks.Pairwise (· < ·))
    (hxs : ∀ x ∈ xs, rank x ∈ ranks) :
    xs.mergeSort (leRank rank) = ranks.flatMap (classOf rank xs) := by
  have hsorted := List.pairwise_mergeSort (leRank_trans rank) (leRank_total rank) xs
  have hmem : ∀ x ∈ xs.mergeSort (leRank rank), rank x ∈ ranks := fun x hx =>
    hxs x ((List.mergeSort_perm xs (leRank rank)).mem_iff.mp hx)
  rw [eq_flatMap_of_pairwise hsorted hranks hmem]
  exact List.flatMap_congr fun i _ => classOf_mergeSort xs i

/-- **A stable sort lists class after class**, if each class has a rank of its own. -/
theorem mergeSort_eq_flatMap_filter {ι : Type} {index : ι → Nat} {isOf : ι → α → Bool}
    {cs : List ι} {xs : List α} (hcs : (cs.map index).Pairwise (· < ·))
    (hindex : ∀ c x, isOf c x = true → rank x = index c)
    (hxs : ∀ x ∈ xs, ∃ c ∈ cs, isOf c x = true) :
    xs.mergeSort (leRank rank) = cs.flatMap fun c => xs.filter (isOf c) := by
  have hmem : ∀ x ∈ xs, rank x ∈ cs.map index := by
    intro x hx
    obtain ⟨c, hc, hof⟩ := hxs x hx
    rw [hindex c x hof]
    exact List.mem_map_of_mem hc
  have hnodup : (cs.map index).Nodup := hcs.imp fun hlt => Nat.ne_of_lt hlt
  rw [mergeSort_eq_flatMap hcs hmem, List.flatMap_map]
  refine List.flatMap_congr fun c hc => List.filter_congr fun x hx => ?_
  rw [Bool.eq_iff_iff, decide_eq_true_iff]
  constructor
  · intro hrank
    obtain ⟨d, hd, hof⟩ := hxs x hx
    have hsame : index d = index c := (hindex d x hof).symm.trans hrank
    rwa [List.inj_on_of_nodup_map hnodup hd hc hsame] at hof
  · exact hindex c x

end Ranked

/-! ### Line filters -/

namespace LineFilter

/-- The place of a filter: five operator ranks to a case rank. -/
def rank (m : Matcher) : Nat := 5 * caseRank m.key + operatorRank m.operator

theorem operatorRank_lt (symbol : String) : operatorRank symbol < 5 := by
  unfold operatorRank
  split_ifs <;> omega

theorem precedes_eq_leRank : precedes = leRank rank := by
  funext a b
  have ha := operatorRank_lt a.operator
  have hb := operatorRank_lt b.operator
  rw [precedes, leRank, rank, rank, Bool.eq_iff_iff, Bool.or_eq_true, Bool.and_eq_true,
    decide_eq_true_iff, decide_eq_true_iff, decide_eq_true_iff, decide_eq_true_iff]
  omega

/-- The case modes with the operators, in the order in which they are written. -/
def classes : List (CaseMode × LineOperator) :=
  [.sensitive, .insensitive].flatMap fun mode =>
    [.containing, .notContaining, .matching, .notMatching].map fun operator => (mode, operator)

/-- Whether the mode and the operator are those of `m`. -/
def isOf (c : CaseMode × LineOperator) (m : Matcher) : Bool :=
  m.key = c.1.key && m.operator = c.2.symbol

/-- The key is a case mode and the operator one of line filters. -/
def Known (m : Matcher) : Prop := ∃ c ∈ classes, isOf c m = true

instance (m : Matcher) : Decidable (Known m) :=
  inferInstanceAs (Decidable (∃ c ∈ classes, isOf c m = true))

/-- The rank of a class, that of each of its filters. -/
def classRank (c : CaseMode × LineOperator) : Nat :=
  5 * caseRank c.1.key + operatorRank c.2.symbol

theorem rank_of_isOf {c : CaseMode × LineOperator} {m : Matcher} (h : isOf c m = true) :
    rank m = classRank c := by
  rw [isOf, Bool.and_eq_true, decide_eq_true_iff, decide_eq_true_iff] at h
  rw [rank, h.1, h.2, classRank]

theorem pairwise_classRank : (classes.map classRank).Pairwise (· < ·) := by
  decide

/-- **Line filters are sorted class by class**, where their modes and operators
are known. -/
theorem sort_eq {ms : List Matcher} (h : ∀ m ∈ ms, Known m) :
    sort ms = classes.flatMap fun c => ms.filter (isOf c) := by
  rw [sort, precedes_eq_leRank]
  exact mergeSort_eq_flatMap_filter pairwise_classRank (fun _ _ => rank_of_isOf) h

/-! ### Filters with any key -/

/-- The case mode that a key stands for, if it is one. -/
def modeOf? (key : String) : Option CaseMode :=
  if key = CaseMode.sensitive.key then some .sensitive
  else if key = CaseMode.insensitive.key then some .insensitive
  else none

/-- The case modes and what is none, with the operators in their order. -/
def places : List (Option CaseMode × LineOperator) :=
  [some .sensitive, some .insensitive, none].flatMap fun mode =>
    [.containing, .notContaining, .matching, .notMatching].map fun operator => (mode, operator)

def isAt (p : Option CaseMode × LineOperator) (m : Matcher) : Bool :=
  modeOf? m.key = p.1 && m.operator = p.2.symbol

/-- The filters of each place in turn, each place in the order of the list. -/
def inOrder (ms : List Matcher) : List Matcher := places.flatMap fun p => ms.filter (isAt p)

def modeRank : Option CaseMode → Nat
  | some .sensitive => 0
  | some .insensitive => 1
  | none => 2

def placeRank (p : Option CaseMode × LineOperator) : Nat :=
  5 * modeRank p.1 + operatorRank p.2.symbol

theorem caseRank_eq (key : String) : caseRank key = modeRank (modeOf? key) := by
  rw [caseRank, modeOf?]
  split_ifs <;> rfl

theorem rank_of_isAt {p : Option CaseMode × LineOperator} {m : Matcher} (h : isAt p m = true) :
    rank m = placeRank p := by
  rw [isAt, Bool.and_eq_true, decide_eq_true_iff, decide_eq_true_iff] at h
  rw [rank, caseRank_eq, h.1, h.2, placeRank]

theorem pairwise_placeRank : (places.map placeRank).Pairwise (· < ·) := by
  decide

theorem mem_places (p : Option CaseMode × LineOperator) : p ∈ places := by
  obtain ⟨mode, operator⟩ := p
  cases operator <;> rcases mode with _ | _ | _ <;> decide

/-- **Line filters are sorted place by place**, whatever their keys. -/
theorem sort_eq_inOrder {ms : List Matcher}
    (h : ∀ m ∈ ms, ∃ operator : LineOperator, m.operator = operator.symbol) :
    sort ms = inOrder ms := by
  rw [sort, precedes_eq_leRank, inOrder]
  refine mergeSort_eq_flatMap_filter pairwise_placeRank (fun _ _ => rank_of_isAt) fun m hm => ?_
  obtain ⟨operator, ho⟩ := h m hm
  refine ⟨(modeOf? m.key, operator), mem_places _, ?_⟩
  rw [isAt, decide_eq_true rfl, decide_eq_true ho, Bool.and_self]

theorem mem_inOrder {ms : List Matcher} {m : Matcher} (h : m ∈ inOrder ms) : m ∈ ms := by
  obtain ⟨p, -, hm⟩ := List.mem_flatMap.mp h
  exact (List.mem_filter.mp hm).1

end LineFilter

end LogQuery
