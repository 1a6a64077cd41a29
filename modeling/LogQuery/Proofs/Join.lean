import LogQuery.Join
import LogQuery.Proofs.Selector
/-!
# Joined filters

A lookup is narrowed by the joined filters, each written as a matcher of its own;
the compiled selector joins while it writes.  One joins raw values and escapes
afterwards, the other escapes first.  The two texts are the same
(`ofMatchers_joinFilters`), because no bar is escaped and a joined value is never
the empty marker.  The exclusive filters are left as they are by the compiled
selector alone, so that a key may have one of them at most.
-/

namespace LogQuery

/-- A value with a bar in it is not the empty marker. -/
theorem alternation_ne_emptyMarker (p q : String) (parts : List String) :
    Text.alternation (p :: q :: parts) ≠ emptyMarker := by
  intro h
  have hbar := Text.bar_mem_alternation p q parts
  rw [h] at hbar
  exact absurd hbar (by decide)

namespace Join

@[simp] theorem matchers_toFilter (ms : List Matcher) :
    matchers (ms.map Matcher.toFilter) = ms := by
  rw [matchers, List.map_map]
  exact List.map_id ms

theorem key_joinGroup (operator : Operator) (k : String) (ms : List Matcher) :
    (joinGroup operator (k, ms)).key = k := by
  unfold joinGroup
  split
  · rename_i h
    exact (Prod.mk.inj h).1.symm
  · rename_i h
    exact (Prod.mk.inj h).1.symm

theorem value_joinGroup (operator : Operator) (k : String) (ms : List Matcher) :
    (joinGroup operator (k, ms)).value = Text.alternation (ms.map Matcher.value) := by
  cases ms with
  | nil => rfl
  | cons m ms =>
    cases ms with
    | nil => exact (Text.alternation_singleton m.value).symm
    | cons n ms => rfl

/-- The matchers of one class, joined key by key. -/
def joined (operator : Operator) (ms : List Matcher) : List Matcher :=
  (groupBy Matcher.key ms).map (joinGroup operator)

theorem joined_eq (operator : Operator) (ms : List Matcher) :
    joined operator ms = (keysOf Matcher.key ms).map
      fun k => joinGroup operator (k, membersOf Matcher.key ms k) := by
  rw [joined, groupBy_eq, List.map_map]
  rfl

/-- **A key has one joined matcher**, in its place. -/
theorem map_key_joined (operator : Operator) (ms : List Matcher) :
    (joined operator ms).map Matcher.key = keysOf Matcher.key ms := by
  rw [joined_eq, List.map_map]
  exact (List.map_congr_left fun k _ => key_joinGroup operator k _).trans (List.map_id _)

/-- The joined matcher of a key stands for the members that have it. -/
theorem mem_membersOf_joined {operator : Operator} {ms : List Matcher} {k : String} {m : Matcher} :
    m ∈ membersOf Matcher.key (joined operator ms) k ↔ membersOf Matcher.key ms k ≠ []
      ∧ m = joinGroup operator (k, membersOf Matcher.key ms k) := by
  rw [mem_membersOf, joined_eq, List.mem_map, Ne, membersOf_eq_nil, not_not]
  constructor
  · rintro ⟨⟨j, hj, rfl⟩, hkey⟩
    obtain rfl : j = k := (key_joinGroup operator j _).symm.trans hkey
    exact ⟨hj, rfl⟩
  · rintro ⟨hk, rfl⟩
    exact ⟨⟨k, hk, rfl⟩, key_joinGroup operator k _⟩

/-- The operator of a joined group is in every class that its members are in. -/
theorem operator_joinGroup {p : String → Bool} {operator : Operator} {k : String}
    {ms : List Matcher} (ho : p operator.symbol = true)
    (h : ∀ m ∈ ms, p m.operator = true) : p (joinGroup operator (k, ms)).operator = true := by
  cases ms with
  | nil => exact ho
  | cons m ms =>
    cases ms with
    | nil => exact h m List.mem_cons_self
    | cons n ms => exact ho

/-- A group is joined to the matcher that stands for it in a selector. -/
theorem render_joinGroup {g : Group} (h : ∀ m ∈ g.2, m.key = g.1) :
    (joinGroup .matching g).render = Selector.renderPositive g := by
  obtain ⟨k, ms⟩ := g
  cases ms with
  | nil =>
    show Matcher.render ⟨k, _, Text.alternation []⟩ = Matcher.renderAlternation k _ []
    rw [Matcher.renderAlternation_eq]
    rfl
  | cons m ms =>
    cases ms with
    | nil =>
      have hk : m.key = k := h m List.mem_cons_self
      subst hk
      rfl
    | cons n ms =>
      have hmarker := alternation_ne_emptyMarker m.value n.value (ms.map Matcher.value)
      show Matcher.render ⟨k, _, Text.alternation (m.value :: n.value :: ms.map Matcher.value)⟩
        = Matcher.renderAlternation k _ (m.value :: n.value :: ms.map Matcher.value)
      rw [Matcher.renderAlternation_eq, Matcher.render, if_neg hmarker]

/-- The inclusive pieces of a body are the joined matchers. -/
theorem map_renderPositive (ms : List Matcher) :
    (Groups.ofMatchers ms).positive.map Selector.renderPositive
      = (joined .matching (ms.filter Matcher.isInclusive)).map Matcher.render := by
  rw [joined, List.map_map]
  exact List.map_congr_left fun g hg =>
    (render_joinGroup fun m hm => ((group_members hg).2 m hm).2).symm

/-- Where no key has two exclusive matchers, the joined ones are written piece
by piece as the body is. -/
theorem pieces_eq_render_join {ms : List Matcher}
    (h : ((ms.filter Matcher.isExclusive).map Matcher.key).Nodup) :
    Selector.pieces ms = (join ms).map Matcher.render := by
  have hnegative : (Groups.ofMatchers ms).negative
      = (ms.filter Matcher.isExclusive).map fun m => (m.key, [m]) := groupBy_of_nodup h
  have hexclusive : (Groups.ofMatchers ms).exclusive = ms.filter Matcher.isExclusive := by
    rw [Groups.exclusive, hnegative, List.flatMap_map]
    exact List.flatMap_singleton' _
  have hjoined : (Groups.ofMatchers ms).negative.map (joinGroup .notMatching)
      = ms.filter Matcher.isExclusive := by
    rw [hnegative, List.map_map]
    exact List.map_id _
  rw [Selector.pieces, join, List.map_append, map_renderPositive, hexclusive, hjoined]
  rfl

theorem join_eq_nil {ms : List Matcher} : join ms = [] ↔ ms = [] := by
  constructor
  · intro h
    rw [join, List.append_eq_nil_iff, List.map_eq_nil_iff, List.map_eq_nil_iff] at h
    refine Groups.eq_nil_of_no_group h.1 ?_
    rw [Groups.exclusive, h.2, List.flatMap_nil]
  · rintro rfl
    rfl

/-- **A lookup is narrowed by the compiled selector.** The joined filters are
written one by one as the braces around the body are, where no key has two
exclusive filters and the first matcher does not begin with padding. -/
theorem ofMatchers_joinFilters (fs : List Filter)
    (hexclusive : (((matchers fs).filter Matcher.isExclusive).map Matcher.key).Nodup)
    (hlead : ∀ m ∈ (join (matchers fs)).head?, Selector.Unpadded (m.key ++ m.operator)) :
    (fs ≠ [] → Selector.ofMatchers (matchers (joinFilters fs))
      = "\x7b" ++ Selector.body (matchers fs) ++ "\x7d")
    ∧ (fs = [] → Selector.ofMatchers (matchers (joinFilters fs)) = ""
      ∧ Selector.body (matchers fs) = "") := by
  constructor
  · intro hne
    have hjoin : join (matchers fs) ≠ [] := by
      rw [Ne, join_eq_nil, matchers, List.map_eq_nil_iff]
      exact hne
    have hpieces := pieces_eq_render_join hexclusive
    have hbegin : ∀ p ∈ (Selector.pieces (matchers fs)).head?, Selector.Unpadded p := by
      intro p hp
      rw [hpieces, List.head?_map] at hp
      obtain ⟨m, hm, rfl⟩ := Option.map_eq_some_iff.mp hp
      exact Selector.unpadded_render (hlead m hm)
    rw [joinFilters, matchers_toFilter, Selector.ofMatchers, if_neg hjoin, Selector.body_eq hbegin,
      hpieces]
  · rintro rfl
    exact ⟨rfl, rfl⟩

/-- A quote in a value, the empty marker on its own and the empty marker joined. -/
theorem ofMatchers_joinFilters_markers :
    Selector.ofMatchers (matchers (joinFilters [⟨⟨"level", "=", "in\"fo"⟩, none, none⟩,
        ⟨⟨"host", "!~", emptyMarker⟩, none, none⟩, ⟨⟨"level", "=", emptyMarker⟩, none, none⟩]))
      = "\x7b" ++ Selector.body [⟨"level", "=", "in\"fo"⟩, ⟨"host", "!~", emptyMarker⟩,
        ⟨"level", "=", emptyMarker⟩] ++ "\x7d" :=
  (ofMatchers_joinFilters [⟨⟨"level", "=", "in\"fo"⟩, none, none⟩,
    ⟨⟨"host", "!~", emptyMarker⟩, none, none⟩, ⟨⟨"level", "=", emptyMarker⟩, none, none⟩]
    (by decide) (by decide)).1 (by decide)

end Join

end LogQuery
