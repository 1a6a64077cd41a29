import LogQuery.Join
import LogQuery.Stage
import LogQuery.Proofs.Clauses
/-!
# Interleaved filters

Filters of different keys and classes may stand between one another.  Grouping
sees of that only two things: the matchers of each key and class in their order,
and the order in which the keys of a class are first seen
(`Groups.ofMatchers_eq_iff`).  What is written or joined from groups depends on
nothing else, so that a filter may pass others that are not of its key and class
(`compiledAlike_of_interleaved`).
-/

namespace LogQuery

/-! ### What grouping sees -/

section Grouping

variable {κ α : Type} [DecidableEq κ] {key : α → κ} {xs ys : List α}

/-- **Groups are equal** if their keys and the members of each key are. -/
theorem groupBy_eq_iff : groupBy key xs = groupBy key ys
    ↔ keysOf key xs = keysOf key ys ∧ ∀ k, membersOf key xs k = membersOf key ys k := by
  constructor
  · intro h
    have hkeys : keysOf key xs = keysOf key ys := by
      rw [← map_fst_groupBy, h, map_fst_groupBy]
    refine ⟨hkeys, fun k => ?_⟩
    by_cases hk : k ∈ keysOf key ys
    · rw [groupBy_eq, groupBy_eq, hkeys] at h
      exact (Prod.mk.inj (List.map_inj_left.mp h k hk)).2
    · rw [membersOf_eq_nil.mpr hk, membersOf_eq_nil.mpr (hkeys ▸ hk)]
  · rintro ⟨hkeys, hmembers⟩
    rw [groupBy_eq, groupBy_eq, hkeys]
    exact List.map_congr_left fun k _ => by rw [hmembers k]

/-- A member passes others that are not of its kind. -/
theorem filter_move {p : α → Bool} {x : α} {passed : List α}
    (h : p x = true → ∀ y ∈ passed, p y = false) (before after : List α) :
    (before ++ x :: (passed ++ after)).filter p = (before ++ (passed ++ x :: after)).filter p := by
  cases hx : p x with
  | false =>
    have hdrop : ∀ zs, (x :: zs).filter p = zs.filter p := fun zs =>
      List.filter_cons_of_neg (by rw [hx]; exact Bool.false_ne_true)
    rw [List.filter_append, List.filter_append, List.filter_append, hdrop, hdrop,
      List.filter_append]
  | true =>
    have hkeep : ∀ zs, (x :: zs).filter p = x :: zs.filter p := fun zs => List.filter_cons_of_pos hx
    have hnone : passed.filter p = [] :=
      List.filter_eq_nil_iff.mpr fun y hy => Bool.eq_false_iff.mp (h hx y hy)
    rw [List.filter_append, List.filter_append, List.filter_append, hkeep, hkeep,
      List.filter_append, hnone, List.nil_append, List.nil_append]

end Grouping

/-- The same matchers of each key and class, in the same order. -/
structure SameMembers (ms ns : List Matcher) : Prop where
  inclusive : ∀ k, membersOf Matcher.key (inclusive ms) k = membersOf Matcher.key (inclusive ns) k
  exclusive : ∀ k, membersOf Matcher.key (exclusive ms) k = membersOf Matcher.key (exclusive ns) k

/-- In each class the keys are first seen in the same order. -/
structure SameKeys (ms ns : List Matcher) : Prop where
  inclusive : keysOf Matcher.key (inclusive ms) = keysOf Matcher.key (inclusive ns)
  exclusive : keysOf Matcher.key (exclusive ms) = keysOf Matcher.key (exclusive ns)

/-- **Groups of matchers** are equal if the keys and the members of each class are. -/
theorem Groups.ofMatchers_eq_iff {ms ns : List Matcher} :
    ofMatchers ms = ofMatchers ns ↔ SameKeys ms ns ∧ SameMembers ms ns := by
  constructor
  · intro h
    obtain ⟨hpositive, hnegative⟩ := Groups.mk.inj h
    obtain ⟨hkeys, hmembers⟩ := groupBy_eq_iff.mp hpositive
    obtain ⟨hkeys', hmembers'⟩ := groupBy_eq_iff.mp hnegative
    exact ⟨⟨hkeys, hkeys'⟩, ⟨hmembers, hmembers'⟩⟩
  · rintro ⟨hkeys, hmembers⟩
    have hpositive : (ofMatchers ms).positive = (ofMatchers ns).positive :=
      groupBy_eq_iff.mpr ⟨hkeys.inclusive, hmembers.inclusive⟩
    have hnegative : (ofMatchers ms).negative = (ofMatchers ns).negative :=
      groupBy_eq_iff.mpr ⟨hkeys.exclusive, hmembers.exclusive⟩
    exact congrArg₂ Groups.mk hpositive hnegative

/-! ### A matcher that passes others -/

/-- No key and class has its matchers in another order after a matcher has passed
those of other keys, or of the other class. -/
theorem sameMembers_move {m : Matcher} {passed : List Matcher}
    (h : ∀ n ∈ passed, n.key ≠ m.key ∨ n.isExclusive ≠ m.isExclusive)
    (before after : List Matcher) :
    SameMembers (before ++ m :: (passed ++ after)) (before ++ (passed ++ m :: after)) := by
  have hmove : ∀ (p : Matcher → Bool), (∀ n ∈ passed, p m = true → p n = true →
      n.isExclusive = m.isExclusive) → ∀ k,
      membersOf Matcher.key ((before ++ m :: (passed ++ after)).filter p) k
        = membersOf Matcher.key ((before ++ (passed ++ m :: after)).filter p) k := by
    intro p hp k
    rw [membersOf, membersOf, List.filter_filter, List.filter_filter]
    refine filter_move (fun hm n hn => ?_) before after
    rw [Bool.and_eq_true, decide_eq_true_iff] at hm
    rw [Bool.and_eq_false_iff, decide_eq_false_iff_not]
    by_contra hboth
    rw [not_or, not_not, Bool.not_eq_false] at hboth
    rcases h n hn with hkey | hclass
    · exact hkey (hboth.1.trans hm.1.symm)
    · exact hclass (hp n hn hm.2 hboth.2)
  constructor
  · refine hmove Matcher.isInclusive fun n _ hm hn => ?_
    exact (Matcher.isInclusive_iff.mp hn).trans (Matcher.isInclusive_iff.mp hm).symm
  · exact hmove Matcher.isExclusive fun n _ hm hn => hn.trans hm.symm

/-! ### What is compiled -/

/-- Filters that are compiled to the same texts, and joined to the same filters. -/
structure CompiledAlike (fs gs : List Filter) : Prop where
  selector : Selector.body (matchers fs) = Selector.body (matchers gs)
  metadata : Stage.metadata (matchers fs) = Stage.metadata (matchers gs)
  joined : Join.joinFilters fs = Join.joinFilters gs

theorem compiledAlike_of_groups {fs gs : List Filter}
    (h : Groups.ofMatchers (matchers fs) = Groups.ofMatchers (matchers gs)) :
    CompiledAlike fs gs where
  selector := by rw [Selector.body, Selector.body, h]
  metadata := by rw [Stage.metadata, Stage.metadata, h]
  joined := by rw [Join.joinFilters, Join.joinFilters, Join.join, Join.join, h]

/-- **Interleaving does not matter.**  Where each key and class has the same
matchers, and the keys of a class are first seen in the same order, the filters
are compiled alike.  So they are after a filter has passed others of other keys, or
of the other class, as long as the keys are seen in the same order. -/
theorem compiledAlike_of_interleaved :
    (∀ fs gs : List Filter, SameMembers (matchers fs) (matchers gs) →
      SameKeys (matchers fs) (matchers gs) → CompiledAlike fs gs)
    ∧ ∀ (before passed after : List Filter) (f : Filter),
      (∀ g ∈ passed, g.key ≠ f.key ∨ g.isExclusive ≠ f.isExclusive) →
      SameKeys (matchers (before ++ f :: (passed ++ after)))
        (matchers (before ++ (passed ++ f :: after))) →
      CompiledAlike (before ++ f :: (passed ++ after)) (before ++ (passed ++ f :: after)) := by
  have halike : ∀ fs gs : List Filter, SameMembers (matchers fs) (matchers gs) →
      SameKeys (matchers fs) (matchers gs) → CompiledAlike fs gs := fun fs gs hmembers hkeys =>
    compiledAlike_of_groups (Groups.ofMatchers_eq_iff.mpr ⟨hkeys, hmembers⟩)
  refine ⟨halike, fun before passed after f hpassed hkeys => halike _ _ ?_ hkeys⟩
  simp only [matchers, List.map_append, List.map_cons]
  exact sameMembers_move (List.forall_mem_map.mpr hpassed) _ _

/-- Two keys with filters of both classes, key by key and in turns; and a filter that
passes an exclusive one of its key and a later one of another key. -/
theorem compiledAlike_of_interleaved_turns :
    CompiledAlike
      [⟨⟨"level", "=", "a"⟩, some ["A"], none⟩, ⟨⟨"level", "=~", "b|c"⟩, none, none⟩,
        ⟨⟨"level", "!=", emptyMarker⟩, none, none⟩, ⟨⟨"host", "!~", "d"⟩, none, none⟩,
        ⟨⟨"host", "=", "e\""⟩, none, none⟩]
      [⟨⟨"level", "!=", emptyMarker⟩, none, none⟩, ⟨⟨"level", "=", "a"⟩, none, none⟩,
        ⟨⟨"host", "=", "e\""⟩, none, none⟩, ⟨⟨"level", "=~", "b|c"⟩, none, none⟩,
        ⟨⟨"host", "!~", "d"⟩, none, none⟩]
    ∧ CompiledAlike
      ([⟨⟨"level", "=", "a"⟩, none, none⟩] ++ ⟨⟨"level", "=", "b"⟩, none, none⟩
        :: ([⟨⟨"level", "!=", "c"⟩, none, none⟩, ⟨⟨"host", "=", "d"⟩, none, none⟩] ++ []))
      ([⟨⟨"level", "=", "a"⟩, none, none⟩] ++ ([⟨⟨"level", "!=", "c"⟩, none, none⟩,
        ⟨⟨"host", "=", "d"⟩, none, none⟩] ++ ⟨⟨"level", "=", "b"⟩, none, none⟩ :: [])) := by
  constructor
  · obtain ⟨hkeys, hmembers⟩ := Groups.ofMatchers_eq_iff.mp
      (show Groups.ofMatchers [⟨"level", "=", "a"⟩, ⟨"level", "=~", "b|c"⟩,
          ⟨"level", "!=", emptyMarker⟩, ⟨"host", "!~", "d"⟩, ⟨"host", "=", "e\""⟩]
        = Groups.ofMatchers [⟨"level", "!=", emptyMarker⟩, ⟨"level", "=", "a"⟩,
          ⟨"host", "=", "e\""⟩, ⟨"level", "=~", "b|c"⟩, ⟨"host", "!~", "d"⟩]
        from congrArg₂ Groups.mk (by decide) (by decide))
    exact compiledAlike_of_interleaved.1 _ _ hmembers hkeys
  · exact compiledAlike_of_interleaved.2 _ _ _ _ (by decide) ⟨by decide, by decide⟩

end LogQuery
