import LogQuery.Proofs.Expression
import LogQuery.Proofs.Join
/-!
# The scope of a lookup

A lookup for an edited filter is narrowed by the other filters, except for those
that would keep out what is looked for, or that the store would not take.  What
may stay is said by `Acceptable`.  The three passes of `scopeBy` are taken one by
one: each keeps every list that meets its own condition (`sublist_dropEqualities`
and its like), so that what is left is the greatest acceptable list
(`acceptable_scopeBy`, `sublist_scopeBy`).

Joined filters have one matcher of each class per key.  But a joined equality is
an equality no more; it stays in the scope of its own key
(`scopeFilters_off_key_iff`).
-/

namespace LogQuery

open Syntax

namespace Join

/-- What a lookup for `edited` may be narrowed by. -/
structure Acceptable (edited : Matcher) (ms : List Matcher) : Prop where
  /-- No equality keeps out the other values of the edited key. -/
  noEquality : edited.isInclusive = true →
    ∀ m ∈ ms, m.key = edited.key → m.operator ≠ Operator.equal.symbol
  /-- The edited key has no exclusive matchers alone. -/
  inclusiveOnKey : ∀ m ∈ ms, m.key = edited.key →
    ∃ n ∈ ms, n.key = edited.key ∧ n.isInclusive = true
  /-- Nor has the whole. -/
  inclusive : ms = [] ∨ ∃ m ∈ ms, m.isInclusive = true

/-! ### One pass after the other -/

section Scope

variable {α : Type} {matcher : α → Matcher} {edited : Matcher} {key : String} {xs ys : List α}

/-- A sublist of members that are kept is not touched. -/
theorem sublist_filter {p : α → Bool} (hsub : ys.Sublist xs) (hp : ∀ y ∈ ys, p y = true) :
    ys.Sublist (xs.filter p) := by
  rw [← List.filter_eq_self.mpr hp]
  exact hsub.filter p

theorem dropEqualities_sublist : (dropEqualities matcher edited xs).Sublist xs :=
  List.filter_sublist

theorem dropLoneKey_sublist : (dropLoneKey matcher key xs).Sublist xs := by
  unfold dropLoneKey
  split
  · exact List.Sublist.refl xs
  · exact List.filter_sublist

theorem dropLone_sublist : (dropLone matcher xs).Sublist xs := by
  unfold dropLone
  split
  · exact List.Sublist.refl xs
  · exact List.nil_sublist xs

theorem ne_equal_of_mem_dropEqualities (hinclusive : edited.isInclusive = true) :
    ∀ x ∈ dropEqualities matcher edited xs, (matcher x).key = edited.key →
      (matcher x).operator ≠ Operator.equal.symbol := by
  intro x hx hkey hoperator
  have hkeep := (List.mem_filter.mp hx).2
  simp [hinclusive, hkey, hoperator] at hkeep

theorem exists_inclusive_of_mem_dropLoneKey :
    ∀ x ∈ dropLoneKey matcher key xs, (matcher x).key = key →
      ∃ y ∈ dropLoneKey matcher key xs, (matcher y).key = key ∧ (matcher y).isInclusive = true := by
  intro x hx hkey
  unfold dropLoneKey at hx ⊢
  split at hx
  · rename_i hany
    rw [if_pos hany]
    simpa using hany
  · simp [hkey] at hx

theorem dropLone_eq_nil_or (matcher : α → Matcher) (xs : List α) : dropLone matcher xs = [] ∨
    dropLone matcher xs = xs ∧ ∃ x ∈ xs, (matcher x).isInclusive = true := by
  unfold dropLone
  split
  · rename_i hany
    exact Or.inr ⟨rfl, by simpa using hany⟩
  · exact Or.inl rfl

theorem sublist_dropEqualities (hsub : ys.Sublist xs)
    (h : edited.isInclusive = true → ∀ y ∈ ys, (matcher y).key = edited.key →
      (matcher y).operator ≠ Operator.equal.symbol) :
    ys.Sublist (dropEqualities matcher edited xs) := by
  refine sublist_filter hsub fun y hy => ?_
  by_contra hdrop
  simp only [Bool.not_eq_true', Bool.not_eq_false, Bool.and_eq_true, decide_eq_true_eq] at hdrop
  exact h hdrop.1.1 y hy hdrop.1.2 hdrop.2

theorem sublist_dropLoneKey (hsub : ys.Sublist xs)
    (h : ∀ y ∈ ys, (matcher y).key = key →
      ∃ z ∈ ys, (matcher z).key = key ∧ (matcher z).isInclusive = true) :
    ys.Sublist (dropLoneKey matcher key xs) := by
  unfold dropLoneKey
  split
  · exact hsub
  · rename_i hnone
    refine sublist_filter hsub fun y hy => ?_
    -- an inclusive one on the key would have stopped the pass
    by_contra hkey
    obtain ⟨z, hz, hinclusive⟩ := h y hy (by simpa using hkey)
    exact hnone (List.any_eq_true.mpr ⟨z, hsub.subset hz, by simpa using hinclusive⟩)

theorem sublist_dropLone (hsub : ys.Sublist xs)
    (h : ys = [] ∨ ∃ y ∈ ys, (matcher y).isInclusive = true) :
    ys.Sublist (dropLone matcher xs) := by
  unfold dropLone
  rcases h with rfl | ⟨y, hy, hinclusive⟩
  · exact List.nil_sublist _
  · rwa [if_pos (List.any_eq_true.mpr ⟨y, hsub.subset hy, hinclusive⟩)]

/-! ### The greatest acceptable list -/

theorem scopeBy_sublist : (scopeBy matcher xs edited).Sublist xs :=
  (dropLone_sublist.trans dropLoneKey_sublist).trans dropEqualities_sublist

/-- **What is left is acceptable.** -/
theorem acceptable_scopeBy (matcher : α → Matcher) (xs : List α) (edited : Matcher) :
    Acceptable edited ((scopeBy matcher xs edited).map matcher) := by
  unfold scopeBy
  rcases dropLone_eq_nil_or matcher
    (dropLoneKey matcher edited.key (dropEqualities matcher edited xs)) with h | ⟨h, hsome⟩
  · rw [h]
    exact ⟨fun _ m hm => absurd hm List.not_mem_nil, fun m hm => absurd hm List.not_mem_nil,
      Or.inl rfl⟩
  · rw [h]
    refine ⟨fun hinclusive => ?_, ?_, Or.inr ?_⟩
    · exact List.forall_mem_map.mpr fun x hx =>
        ne_equal_of_mem_dropEqualities hinclusive x (dropLoneKey_sublist.subset hx)
    · refine List.forall_mem_map.mpr fun x hx hkey => ?_
      obtain ⟨y, hy, hinclusive⟩ := exists_inclusive_of_mem_dropLoneKey x hx hkey
      exact ⟨matcher y, List.mem_map_of_mem hy, hinclusive⟩
    · obtain ⟨y, hy, hinclusive⟩ := hsome
      exact ⟨matcher y, List.mem_map_of_mem hy, hinclusive⟩

/-- **And whatever is acceptable is left.** -/
theorem sublist_scopeBy (hsub : ys.Sublist xs) (h : Acceptable edited (ys.map matcher)) :
    ys.Sublist (scopeBy matcher xs edited) := by
  refine sublist_dropLone (sublist_dropLoneKey (sublist_dropEqualities hsub ?_) ?_) ?_
  · exact fun hinclusive => List.forall_mem_map.mp (h.noEquality hinclusive)
  · intro y hy hkey
    simpa using h.inclusiveOnKey (matcher y) (List.mem_map_of_mem hy) hkey
  · simpa using h.inclusive

theorem scopeBy_scopeBy (matcher : α → Matcher) (xs : List α) (edited : Matcher) :
    scopeBy matcher (scopeBy matcher xs edited) edited = scopeBy matcher xs edited :=
  scopeBy_sublist.antisymm
    (sublist_scopeBy (List.Sublist.refl _) (acceptable_scopeBy matcher xs edited))

end Scope

/-! ### Joined filters -/

section Joined

variable {ms : List Matcher} {edited : Matcher}

theorem isInclusive_joinGroup {g : Group} (hg : g ∈ (Groups.ofMatchers ms).positive) :
    (joinGroup .matching g).isInclusive = true :=
  operator_joinGroup (p := Symbol.isInclusive) rfl fun m hm =>
    ((Groups.group_filter hg).2 m hm).2.1

theorem isExclusive_joinGroup {g : Group} (hg : g ∈ (Groups.ofMatchers ms).negative) :
    (joinGroup .notMatching g).isExclusive = true :=
  operator_joinGroup (p := Symbol.isExclusive) rfl fun m hm =>
    ((Groups.group_filter hg).2 m hm).2.1

/-- The inclusive matchers of a join are the inclusive ones, joined. -/
theorem inclusive_join (ms : List Matcher) :
    inclusive (join ms) = joined .matching (inclusive ms) := by
  have hpositive : ∀ m ∈ (Groups.ofMatchers ms).positive.map (joinGroup .matching),
      m.isInclusive = true := List.forall_mem_map.mpr fun g hg => isInclusive_joinGroup hg
  have hnegative : ∀ m ∈ (Groups.ofMatchers ms).negative.map (joinGroup .notMatching),
      ¬ m.isInclusive = true := List.forall_mem_map.mpr fun g hg => by
    rw [Matcher.isInclusive_iff, isExclusive_joinGroup hg]
    exact nofun
  rw [inclusive, join, List.filter_append, List.filter_eq_self.mpr hpositive,
    List.filter_eq_nil_iff.mpr hnegative, List.append_nil]
  rfl

theorem exclusive_join (ms : List Matcher) :
    exclusive (join ms) = joined .notMatching (exclusive ms) := by
  have hpositive : ∀ m ∈ (Groups.ofMatchers ms).positive.map (joinGroup .matching),
      ¬ m.isExclusive = true := List.forall_mem_map.mpr fun g hg =>
    Bool.eq_false_iff.mp (Matcher.isInclusive_iff.mp (isInclusive_joinGroup hg))
  have hnegative : ∀ m ∈ (Groups.ofMatchers ms).negative.map (joinGroup .notMatching),
      m.isExclusive = true := List.forall_mem_map.mpr fun g hg => isExclusive_joinGroup hg
  rw [exclusive, join, List.filter_append, List.filter_eq_nil_iff.mpr hpositive,
    List.filter_eq_self.mpr hnegative, List.nil_append]
  rfl

/-- **A key has one joined matcher of each class.** -/
theorem nodup_keys_join (ms : List Matcher) :
    ((inclusive (join ms)).map Matcher.key).Nodup
      ∧ ((exclusive (join ms)).map Matcher.key).Nodup := by
  rw [inclusive_join, exclusive_join, map_key_joined, map_key_joined]
  exact ⟨nodup_keysOf Matcher.key _, nodup_keysOf Matcher.key _⟩

theorem writable_joinGroup {operator : Operator} {p : Matcher → Bool} {g : Group}
    (hg : g ∈ groupBy Matcher.key (ms.filter p)) (h : ∀ m ∈ ms, m.Writable) :
    (joinGroup operator g).Writable := by
  obtain ⟨hne, hmem⟩ := Groups.group_filter hg
  obtain ⟨m, hm⟩ := List.exists_mem_of_ne_nil _ hne
  constructor
  · rw [key_joinGroup, ← (hmem m hm).2.2]
    exact (h m (hmem m hm).1).key
  · exact operator_joinGroup (p := isOperator) (isOperator_symbol operator) fun n hn =>
      (h n (hmem n hn).1).operator

theorem writable_join (h : ∀ m ∈ ms, m.Writable) : ∀ m ∈ join ms, m.Writable := by
  intro m hm
  rcases List.mem_append.mp hm with hm | hm
  · obtain ⟨g, hg, rfl⟩ := List.mem_map.mp hm
    exact writable_joinGroup hg h
  · obtain ⟨g, hg, rfl⟩ := List.mem_map.mp hm
    exact writable_joinGroup hg h

end Joined

end Join

/-! ### The selector of a lookup -/

/-- A selector that the store takes: none, or one with an inclusive matcher.  No
key has two matchers of a class. -/
structure Selectable (ms : List Matcher) : Prop where
  inclusive : Selector.ofMatchers ms = "" ∨ ∃ m ∈ ms, m.isInclusive = true
  nodup_inclusive : ((LogQuery.inclusive ms).map Matcher.key).Nodup
  nodup_exclusive : ((exclusive ms).map Matcher.key).Nodup

/-- Matchers that are written one by one are read back one by one. -/
theorem Selector.read?_ofMatchers {ms : List Matcher} (hne : ms ≠ [])
    (h : ∀ m ∈ ms, m.Writable) :
    read? (ofMatchers ms) = some [.selector (ms.map Matcher.condition)] := by
  have hprint : ofMatchers ms = print [.selector (ms.map Matcher.condition)] := by
    rw [ofMatchers, if_neg hne, print, List.map_singleton, String.intercalate_singleton,
      Clause.text, Matcher.map_text_condition]
  rw [hprint]
  refine read?_print fun c hc => ?_
  rw [List.mem_singleton.mp hc]
  exact List.forall_mem_map.mpr fun m hm => (h m hm).condition

namespace Join

theorem matchers_scopeFilters_sublist (fs : List Filter) (edited : Filter) :
    (matchers (scopeFilters (joinFilters fs) edited)).Sublist (join (matchers fs)) := by
  have hsub : (scopeFilters (joinFilters fs) edited).Sublist (joinFilters fs) := scopeBy_sublist
  have hmap := hsub.map Filter.toMatcher
  rwa [← matchers, ← matchers, joinFilters, matchers_toFilter] at hmap

theorem selectable_scopeFilters (fs : List Filter) (edited : Filter) :
    Selectable (matchers (scopeFilters (joinFilters fs) edited)) := by
  have hsub := matchers_scopeFilters_sublist fs edited
  obtain ⟨hinclusive, hexclusive⟩ := nodup_keys_join (matchers fs)
  refine ⟨?_, hinclusive.sublist ((hsub.filter _).map _),
    hexclusive.sublist ((hsub.filter _).map _)⟩
  refine (acceptable_scopeBy _ _ _).inclusive.imp_left fun hnil => ?_
  exact if_pos hnil

/-- **The scope is the greatest acceptable list of filters.**  It is a part of
the filters, in their order, with every acceptable part in it; so a scope has
itself for its scope.  The scope of joined filters makes a selector that the
store takes, and that is read back as it was meant. -/
theorem scopeFilters_greatest (fs : List Filter) (edited : Filter) :
    (scopeFilters fs edited).Sublist fs
    ∧ Acceptable edited.toMatcher (matchers (scopeFilters fs edited))
    ∧ (∀ gs : List Filter, gs.Sublist fs → Acceptable edited.toMatcher (matchers gs) →
        gs.Sublist (scopeFilters fs edited))
    ∧ scopeFilters (scopeFilters fs edited) edited = scopeFilters fs edited
    ∧ Selectable (matchers (scopeFilters (joinFilters fs) edited))
    ∧ ((∀ f ∈ fs, f.toMatcher.Writable) → scopeFilters (joinFilters fs) edited ≠ [] →
        read? (Selector.ofMatchers (matchers (scopeFilters (joinFilters fs) edited)))
          = some [.selector ((matchers (scopeFilters (joinFilters fs) edited)).map
            Matcher.condition)]) := by
  refine ⟨scopeBy_sublist, acceptable_scopeBy _ _ _, fun gs hsub h => sublist_scopeBy hsub h,
    scopeBy_scopeBy _ _ _, selectable_scopeFilters fs edited, fun hfs hne => ?_⟩
  have hwritable := writable_join (forall_mem_matchers hfs)
  refine Selector.read?_ofMatchers (fun hnil => hne (List.map_eq_nil_iff.mp hnil)) fun m hm => ?_
  exact hwritable m ((matchers_scopeFilters_sublist fs edited).subset hm)

/-- The equality on the edited key goes, its exclusive filters with it, and the
other key is joined. -/
theorem scopeFilters_greatest_joined :
    read? (Selector.ofMatchers (matchers (scopeFilters (joinFilters
        [⟨⟨"host", "=", "a"⟩, some ["A"], none⟩, ⟨⟨"cluster", "=", "c"⟩, none, none⟩,
          ⟨⟨"host", "!=", "b"⟩, none, none⟩, ⟨⟨"cluster", "=~", "d\""⟩, none, none⟩,
          ⟨⟨"cluster", "!~", "e"⟩, none, none⟩]) ⟨⟨"host", "=", ""⟩, none, none⟩)))
      = some [.selector [⟨"cluster", "=~", .quoted "c|d\""⟩, ⟨"cluster", "!~", .quoted "e"⟩]] := by
  have hwords : ∀ f ∈ [(⟨⟨"host", "=", "a"⟩, some ["A"], none⟩ : Filter),
      ⟨⟨"cluster", "=", "c"⟩, none, none⟩, ⟨⟨"host", "!=", "b"⟩, none, none⟩,
      ⟨⟨"cluster", "=~", "d\""⟩, none, none⟩, ⟨⟨"cluster", "!~", "e"⟩, none, none⟩],
      Kind.word.spells f.key = true ∧ isOperator f.operator = true := by decide
  obtain ⟨-, -, -, -, -, hread⟩ := scopeFilters_greatest _ ⟨⟨"host", "=", ""⟩, none, none⟩
  exact (hread (fun f hf => ⟨(hwords f hf).1, (hwords f hf).2⟩) (by decide)).trans rfl

/-! ### The edited key -/

/-- A key with several inclusive matchers is joined to an alternation. -/
theorem alternation_mem_join {ms : List Matcher} {k : String}
    (h : 1 < (membersOf Matcher.key (inclusive ms) k).length) :
    ∃ m ∈ join ms, m.key = k ∧ m.operator = Operator.matching.symbol := by
  have hmany : ∀ n : List Matcher, 1 < n.length →
      (joinGroup .matching (k, n)).operator = Operator.matching.symbol := by
    intro n hn
    rcases n with _ | ⟨m, _ | ⟨o, os⟩⟩
    · simp at hn
    · simp at hn
    · rfl
  have hk : k ∈ keysOf Matcher.key (inclusive ms) := by
    by_contra hk
    rw [membersOf_eq_nil.mpr hk] at h
    simp at h
  refine ⟨joinGroup .matching (k, membersOf Matcher.key (inclusive ms) k), ?_,
    key_joinGroup _ _ _, hmany _ h⟩
  refine List.mem_append_left _ (List.mem_map_of_mem ?_)
  rw [Groups.positive_eq]
  exact List.mem_map_of_mem hk

/-- A single inclusive matcher of a key keeps its operator. -/
theorem operator_of_mem_join {ms : List Matcher} {m : Matcher} (hm : m ∈ join ms)
    (hinclusive : m.isInclusive = true)
    (h : (membersOf Matcher.key (inclusive ms) m.key).length ≤ 1) :
    ∃ n ∈ ms, n.isInclusive = true ∧ n.key = m.key ∧ n.operator = m.operator := by
  have hmem : m ∈ membersOf Matcher.key (joined .matching (inclusive ms)) m.key := by
    rw [← inclusive_join]
    exact mem_membersOf.mpr ⟨List.mem_filter.mpr ⟨hm, hinclusive⟩, rfl⟩
  obtain ⟨hne, hgroup⟩ := mem_membersOf_joined.mp hmem
  rcases hmembers : membersOf Matcher.key (inclusive ms) m.key with _ | ⟨n, _ | ⟨o, os⟩⟩
  · exact absurd hmembers hne
  · have hn : n ∈ membersOf Matcher.key (inclusive ms) m.key := by
      rw [hmembers]
      exact List.mem_cons_self
    obtain ⟨hn, hkey⟩ := mem_membersOf.mp hn
    obtain ⟨hn, hclass⟩ := List.mem_filter.mp hn
    rw [hmembers] at hgroup
    exact ⟨n, hn, hclass, hkey, (congrArg Matcher.operator hgroup).symm⟩
  · rw [hmembers] at h
    simp at h

theorem length_membersOf_matchers (fs : List Filter) (k : String) :
    (membersOf Matcher.key (inclusive (matchers fs)) k).length
      = (fs.filter fun f => f.key = k && f.isInclusive).length := by
  rw [membersOf, inclusive, List.filter_filter, matchers, List.filter_map, List.length_map]
  rfl

theorem acceptable_singleton {edited m : Matcher} (hinclusive : m.isInclusive = true)
    (hoperator : m.operator ≠ Operator.equal.symbol) : Acceptable edited [m] where
  noEquality _ _ hn _ := List.mem_singleton.mp hn ▸ hoperator
  inclusiveOnKey _ hn hkey := ⟨m, List.mem_cons_self, List.mem_singleton.mp hn ▸ hkey, hinclusive⟩
  inclusive := Or.inr ⟨m, List.mem_cons_self, hinclusive⟩

/-- **Where only equalities select values of the edited key,** the lookup is not
narrowed by the key, unless there are several of them: joined, they are an
alternation, which stays. -/
theorem scopeFilters_off_key_iff (fs : List Filter) (edited : Filter)
    (hinclusive : edited.isInclusive = true)
    (hequal : ∀ f ∈ fs, f.isInclusive = true → f.key = edited.key →
      f.operator = Operator.equal.symbol) :
    (∀ f ∈ scopeFilters (joinFilters fs) edited, f.key ≠ edited.key)
      ↔ (fs.filter fun f => f.key = edited.key && f.isInclusive).length ≤ 1 := by
  rw [← length_membersOf_matchers]
  constructor
  · intro hoff
    by_contra hmany
    obtain ⟨m, hm, hkey, hoperator⟩ := alternation_mem_join (Nat.lt_of_not_le hmany)
    have hclass : m.isInclusive = true := by
      rw [Matcher.isInclusive, hoperator]
      rfl
    have hother : m.operator ≠ Operator.equal.symbol := by
      rw [hoperator]
      decide
    -- on its own the alternation is acceptable, so that it is in the scope
    have hscope : [m.toFilter].Sublist (scopeFilters (joinFilters fs) edited) := by
      refine sublist_scopeBy (List.singleton_sublist.mpr (List.mem_map_of_mem hm)) ?_
      exact acceptable_singleton hclass hother
    exact hoff m.toFilter (List.singleton_sublist.mp hscope) hkey
  · intro hone f hf hkey
    have hacceptable : Acceptable edited.toMatcher
        (matchers (scopeFilters (joinFilters fs) edited)) := acceptable_scopeBy _ _ _
    obtain ⟨m, hm, hmkey, hclass⟩ :=
      hacceptable.inclusiveOnKey f.toMatcher (List.mem_map_of_mem hf) hkey
    have hjoin : m ∈ join (matchers fs) := (matchers_scopeFilters_sublist fs edited).subset hm
    obtain ⟨n, hn, hnclass, hnkey, hoperator⟩ :=
      operator_of_mem_join hjoin hclass (hmkey ▸ hone)
    obtain ⟨g, hg, rfl⟩ := List.mem_map.mp hn
    refine hacceptable.noEquality hinclusive m hm hmkey ?_
    rw [← hoperator]
    exact hequal g hg hnclass (hnkey.trans hmkey)

/-- One equality goes, and the exclusive filter with it. -/
theorem scopeFilters_off_key_single :
    "host" ∉ (scopeFilters (joinFilters [⟨⟨"host", "=", "a"⟩, none, none⟩,
        ⟨⟨"host", "!=", "b"⟩, none, none⟩, ⟨⟨"cluster", "=~", "c|d"⟩, none, none⟩])
        ⟨⟨"host", "=", "a"⟩, none, none⟩).map (·.key) := by
  intro hhost
  obtain ⟨f, hf, hkey⟩ := List.mem_map.mp hhost
  have hoff := (scopeFilters_off_key_iff [⟨⟨"host", "=", "a"⟩, none, none⟩,
    ⟨⟨"host", "!=", "b"⟩, none, none⟩, ⟨⟨"cluster", "=~", "c|d"⟩, none, none⟩]
    ⟨⟨"host", "=", "a"⟩, none, none⟩ (by decide) (by decide)).mpr (by decide)
  exact hoff f hf hkey

/-- Of two equalities an alternation is left, which keeps out all values but
their own. -/
theorem scopeFilters_two_equalities :
    (∀ f ∈ [(⟨⟨"host", "=", "a"⟩, none, none⟩ : Filter), ⟨⟨"host", "=", "b"⟩, none, none⟩],
        f.isInclusive = true → f.key = "host" → f.operator = Operator.equal.symbol)
    ∧ (¬ ∀ f ∈ scopeFilters (joinFilters [⟨⟨"host", "=", "a"⟩, none, none⟩,
        ⟨⟨"host", "=", "b"⟩, none, none⟩]) ⟨⟨"host", "=", "a"⟩, none, none⟩, f.key ≠ "host")
    ∧ Selector.ofMatchers (matchers (scopeFilters (joinFilters [⟨⟨"host", "=", "a"⟩, none, none⟩,
        ⟨⟨"host", "=", "b"⟩, none, none⟩]) ⟨⟨"host", "=", "a"⟩, none, none⟩))
      = "\x7bhost=~\"a|b\"\x7d" := by
  decide

end Join

end LogQuery
