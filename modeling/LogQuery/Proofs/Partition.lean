import LogQuery.Proofs.Grouping
/-!
# The partition into groups

`GroupedBy key xs gs` says what groups are, without the loop that makes them: one
for each key that is seen, in the order in which the keys are first seen, and in
each the members with its key, in their own order.  Only one list of groups is
so, and the loop returns it (`groupedBy_iff`).  A filter is of one class, so the
groups of the two classes are made of all filters, each once
(`ofMatchers_partition`).
-/

namespace LogQuery

section Grouped

variable {κ α : Type} [DecidableEq κ] {key : α → κ} {xs : List α} {gs : List (κ × List α)}

/-- `j` occurs in the list before `k` does. -/
def SeenBefore (ks : List κ) (j k : κ) : Prop := ks.idxOf j < ks.idxOf k

/-- The groups of `xs` by their definition. -/
structure GroupedBy (key : α → κ) (xs : List α) (gs : List (κ × List α)) : Prop where
  distinct : (gs.map Prod.fst).Nodup
  keys : ∀ k, k ∈ gs.map Prod.fst ↔ ∃ x ∈ xs, key x = k
  firstSeen : (gs.map Prod.fst).Pairwise (SeenBefore (xs.map key))
  members : ∀ g ∈ gs, g.2 = xs.filter fun x => key x = g.1
  nonempty : ∀ g ∈ gs, g.2 ≠ []

/-- The keys stand in the order in which they are first seen. -/
theorem pairwise_keysOf (key : α → κ) (xs : List α) :
    (keysOf key xs).Pairwise (SeenBefore (xs.map key)) := by
  induction xs using List.reverseRecOn with
  | nil => exact List.Pairwise.nil
  | append_singleton xs x ih =>
    have hplace : ∀ k ∈ keysOf key xs, ((xs ++ [x]).map key).idxOf k = (xs.map key).idxOf k := by
      intro k hk
      rw [List.map_append, List.idxOf_append_of_mem (List.mem_eraseDups.mp hk)]
    have hold : (keysOf key xs).Pairwise (SeenBefore ((xs ++ [x]).map key)) :=
      ih.imp_of_mem fun hj hk hjk => by rwa [SeenBefore, hplace _ hj, hplace _ hk]
    rw [keysOf_concat]
    by_cases hx : key x ∈ keysOf key xs
    · rwa [if_pos hx]
    · -- a new key stands behind every member that was there
      have hlast : ((xs ++ [x]).map key).idxOf (key x) = (xs.map key).length := by
        rw [List.map_append, List.idxOf_append_of_notMem fun h => hx (List.mem_eraseDups.mpr h),
          List.map_singleton, List.idxOf_cons_self, Nat.add_zero]
      rw [if_neg hx, List.pairwise_append]
      refine ⟨hold, List.pairwise_singleton _ _, fun j hj k hk => ?_⟩
      obtain rfl := List.mem_singleton.mp hk
      rw [SeenBefore, hplace j hj, hlast]
      exact List.idxOf_lt_length_of_mem (List.mem_eraseDups.mp hj)

theorem groupedBy_groupBy (key : α → κ) (xs : List α) : GroupedBy key xs (groupBy key xs) where
  distinct := by
    rw [map_fst_groupBy]
    exact nodup_keysOf key xs
  keys k := by rw [map_fst_groupBy, mem_keysOf]
  firstSeen := by
    rw [map_fst_groupBy]
    exact pairwise_keysOf key xs
  members g hg := by
    rw [groupBy_eq, List.mem_map] at hg
    obtain ⟨k, -, rfl⟩ := hg
    rfl
  nonempty g hg := (group_members hg).1

/-- What is grouped by the definition has the keys in their one order. -/
theorem GroupedBy.map_fst_eq (h : GroupedBy key xs gs) : gs.map Prod.fst = keysOf key xs := by
  have hperm : (gs.map Prod.fst).Perm (keysOf key xs) :=
    (List.perm_ext_iff_of_nodup h.distinct (nodup_keysOf key xs)).mpr fun k => by
      rw [h.keys, mem_keysOf]
  exact hperm.eq_of_pairwise (fun j k _ _ hjk hkj => absurd hkj (Nat.lt_asymm hjk))
    h.firstSeen (pairwise_keysOf key xs)

/-- **The loop returns the groups, and nothing else is grouped so.** -/
theorem groupedBy_iff : GroupedBy key xs gs ↔ gs = groupBy key xs := by
  constructor
  · intro h
    have hgroups : gs = (gs.map Prod.fst).map fun k => (k, membersOf key xs k) := by
      rw [List.map_map]
      exact (List.map_id gs).symm.trans
        (List.map_congr_left fun g hg => Prod.ext rfl (h.members g hg))
    rw [hgroups, h.map_fst_eq, groupBy_eq]
  · rintro rfl
    exact groupedBy_groupBy key xs

/-- The members of all groups are the members. -/
theorem flatMap_groupBy_perm (key : α → κ) (xs : List α) :
    ((groupBy key xs).flatMap Prod.snd).Perm xs := by
  rw [groupBy_eq, List.flatMap_map]
  exact flatMap_membersOf_perm (nodup_keysOf key xs) fun x hx => mem_keysOf.mpr ⟨x, hx, rfl⟩

/-- What the members are besides what is grouped does not change the groups. -/
theorem groupBy_map {β : Type} (key : β → κ) (f : α → β) (xs : List α) :
    groupBy key (xs.map f) = (groupBy (key ∘ f) xs).map (Prod.map id (List.map f)) := by
  rw [groupBy_eq, groupBy_eq, keysOf_map, List.map_map]
  exact List.map_congr_left fun k _ => Prod.ext rfl (membersOf_map key f xs k)

end Grouped

namespace Groups

variable {α : Type}

/-- A class is grouped as it stands, and the matchers are taken afterwards. -/
theorem groupBy_filter_map (matcher : α → Matcher) (p : Matcher → Bool) (fs : List α) :
    groupBy Matcher.key ((fs.map matcher).filter p)
      = (groupBy (Matcher.key ∘ matcher) (fs.filter (p ∘ matcher))).map
          (Prod.map id (List.map matcher)) := by
  rw [List.filter_map, groupBy_map]

/-- The two classes are all filters, each of them once. -/
theorem classes_perm (matcher : α → Matcher) (fs : List α) :
    (fs.filter (Matcher.isInclusive ∘ matcher)
      ++ fs.filter (Matcher.isExclusive ∘ matcher)).Perm fs := by
  have hclass : Matcher.isInclusive ∘ matcher = fun f => !(Matcher.isExclusive ∘ matcher) f := rfl
  rw [hclass]
  exact List.perm_append_comm.trans (List.filter_append_perm _ fs)

/-- **Grouping equals its definition.**  Filters are grouped whole, whatever they
carry besides their matchers; `id` takes the matchers for the filters themselves.
In each class the groups are those of the definition and no others, and the members
of all groups are the filters, so that none is lost, doubled or put to two groups. -/
theorem ofMatchers_partition (matcher : α → Matcher) (fs : List α) :
    ∃ positive negative : List (String × List α),
      ofMatchers (fs.map matcher)
        = ⟨positive.map (Prod.map id (List.map matcher)),
          negative.map (Prod.map id (List.map matcher))⟩
      ∧ (∀ gs, GroupedBy (Matcher.key ∘ matcher) (fs.filter (Matcher.isInclusive ∘ matcher)) gs
        ↔ gs = positive)
      ∧ (∀ gs, GroupedBy (Matcher.key ∘ matcher) (fs.filter (Matcher.isExclusive ∘ matcher)) gs
        ↔ gs = negative)
      ∧ ((positive ++ negative).flatMap Prod.snd).Perm fs := by
  refine ⟨groupBy (Matcher.key ∘ matcher) (fs.filter (Matcher.isInclusive ∘ matcher)),
    groupBy (Matcher.key ∘ matcher) (fs.filter (Matcher.isExclusive ∘ matcher)), ?_,
    fun _ => groupedBy_iff, fun _ => groupedBy_iff, ?_⟩
  · exact congrArg₂ Groups.mk (groupBy_filter_map matcher Matcher.isInclusive fs)
      (groupBy_filter_map matcher Matcher.isExclusive fs)
  · rw [List.flatMap_append]
    exact ((flatMap_groupBy_perm _ _).append (flatMap_groupBy_perm _ _)).trans
      (classes_perm matcher fs)

end Groups

end LogQuery
