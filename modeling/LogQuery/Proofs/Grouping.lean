import LogQuery.Grouping
import Mathlib.Data.List.Induction
import Mathlib.Data.List.Nodup
/-!
# Groups by their definition

`groupBy` puts one member after another to its group.  This file says what comes
out: the keys in the order in which they are first seen (`keysOf`), each with
the members that have it (`groupBy_eq`).  Every fact about groups follows from
that equation.
-/

namespace LogQuery

variable {κ α : Type} [DecidableEq κ]

/-- The keys in the order in which they are first seen. -/
def keysOf (key : α → κ) (xs : List α) : List κ := (xs.map key).eraseDups

/-- The members with the key `k`. -/
def membersOf (key : α → κ) (xs : List α) (k : κ) : List α := xs.filter fun x => key x = k

/-! ### Keys -/

theorem mem_keysOf {key : α → κ} {xs : List α} {k : κ} :
    k ∈ keysOf key xs ↔ ∃ x ∈ xs, key x = k := by
  rw [keysOf, List.mem_eraseDups, List.mem_map]

theorem keysOf_concat (key : α → κ) (xs : List α) (x : α) :
    keysOf key (xs ++ [x])
      = if key x ∈ keysOf key xs then keysOf key xs else keysOf key xs ++ [key x] := by
  have hmem : key x ∈ keysOf key xs ↔ key x ∈ xs.map key := List.mem_eraseDups
  rw [keysOf, List.map_append, List.map_singleton, List.eraseDups_append, ← keysOf,
    List.removeAll, List.filter_singleton, List.elem_eq_mem]
  by_cases hx : key x ∈ xs.map key
  · rw [if_pos (hmem.mpr hx), decide_eq_true hx]
    exact List.append_nil _
  · rw [if_neg fun h => hx (hmem.mp h), decide_eq_false hx]
    rfl

/-- The keys of a second list come after, as far as they are new. -/
theorem keysOf_append (key : α → κ) (xs ys : List α) :
    keysOf key (xs ++ ys)
      = keysOf key xs ++ (keysOf key ys).filter fun k => k ∉ keysOf key xs := by
  induction ys using List.reverseRecOn with
  | nil =>
    rw [List.append_nil]
    exact (List.append_nil _).symm
  | append_singleton ys y ih =>
    have hmem : key y ∈ keysOf key (xs ++ ys) ↔ key y ∈ keysOf key xs ∨ key y ∈ keysOf key ys := by
      simp only [mem_keysOf, List.mem_append, or_and_right, exists_or]
    rw [← List.append_assoc, keysOf_concat, keysOf_concat, ih]
    by_cases hy : key y ∈ keysOf key ys
    · rw [if_pos (ih ▸ hmem.mpr (Or.inr hy)), if_pos hy]
    · by_cases hx : key y ∈ keysOf key xs
      · rw [if_pos (ih ▸ hmem.mpr (Or.inl hx)), if_neg hy, List.filter_append,
          List.filter_singleton, decide_eq_false (not_not_intro hx), cond_false, List.append_nil]
      · have hnew : key y ∉ keysOf key (xs ++ ys) := fun h => (hmem.mp h).elim hx hy
        rw [if_neg (ih ▸ hnew), if_neg hy, List.filter_append, List.filter_singleton,
          decide_eq_true hx, cond_true, List.append_assoc]

theorem nodup_keysOf (key : α → κ) (xs : List α) : (keysOf key xs).Nodup := by
  induction xs using List.reverseRecOn with
  | nil => exact List.nodup_nil
  | append_singleton xs x ih =>
    rw [keysOf_concat]
    by_cases hx : key x ∈ keysOf key xs
    · rwa [if_pos hx]
    · rw [if_neg hx]
      exact List.nodup_append.mpr ⟨ih, List.nodup_singleton _, fun a ha b hb hab => by
        rw [List.mem_singleton] at hb
        exact hx (hb ▸ hab ▸ ha)⟩

theorem keysOf_eq_nil {key : α → κ} {xs : List α} : keysOf key xs = [] ↔ xs = [] := by
  constructor
  · intro h
    cases xs with
    | nil => rfl
    | cons x xs =>
      have hx : key x ∈ keysOf key (x :: xs) := mem_keysOf.mpr ⟨x, by simp, rfl⟩
      rw [h] at hx
      exact absurd hx List.not_mem_nil
  · rintro rfl
    rfl

/-! ### Members -/

theorem mem_membersOf {key : α → κ} {xs : List α} {k : κ} {x : α} :
    x ∈ membersOf key xs k ↔ x ∈ xs ∧ key x = k := by
  rw [membersOf, List.mem_filter, decide_eq_true_iff]

theorem membersOf_append (key : α → κ) (xs ys : List α) (k : κ) :
    membersOf key (xs ++ ys) k = membersOf key xs k ++ membersOf key ys k :=
  List.filter_append xs ys

theorem membersOf_concat (key : α → κ) (xs : List α) (x : α) (k : κ) :
    membersOf key (xs ++ [x]) k = membersOf key xs k ++ if key x = k then [x] else [] := by
  rw [membersOf, List.filter_append, ← membersOf]
  by_cases hx : key x = k
  · rw [if_pos hx, List.filter_singleton, decide_eq_true hx, cond_true]
  · rw [if_neg hx, List.filter_singleton, decide_eq_false hx, cond_false]

theorem membersOf_eq_nil {key : α → κ} {xs : List α} {k : κ} :
    membersOf key xs k = [] ↔ k ∉ keysOf key xs := by
  rw [membersOf, List.filter_eq_nil_iff, mem_keysOf]
  simp only [decide_eq_true_eq, not_exists, not_and]

theorem membersOf_filter (key : α → κ) (p : α → Bool) (xs : List α) (k : κ) :
    membersOf key (xs.filter p) k = (membersOf key xs k).filter p :=
  List.filter_comm ..

/-- The members of members of a key are all of them. -/
theorem membersOf_membersOf (key : α → κ) (xs : List α) (k : κ) :
    membersOf key (membersOf key xs k) k = membersOf key xs k :=
  List.filter_eq_self.mpr fun _ hx => decide_eq_true (mem_membersOf.mp hx).2

section Map

variable {β : Type}

theorem keysOf_map (key : β → κ) (f : α → β) (xs : List α) :
    keysOf key (xs.map f) = keysOf (key ∘ f) xs := by
  rw [keysOf, keysOf, List.map_map]

theorem membersOf_map (key : β → κ) (f : α → β) (xs : List α) (k : κ) :
    membersOf key (xs.map f) k = (membersOf (key ∘ f) xs k).map f :=
  List.filter_map

end Map

/-- The members of all keys are the members, put together by their keys. -/
theorem flatMap_membersOf_perm {key : α → κ} {ks : List κ} (hks : ks.Nodup) {xs : List α}
    (h : ∀ x ∈ xs, key x ∈ ks) : (ks.flatMap (membersOf key xs)).Perm xs := by
  induction ks generalizing xs with
  | nil =>
    rw [List.eq_nil_iff_forall_not_mem.mpr fun x hx => List.not_mem_nil (h x hx)]
    exact List.Perm.nil
  | cons k ks ih =>
    obtain ⟨hk, hks⟩ := List.nodup_cons.mp hks
    have hothers : ∀ x ∈ xs.filter (fun x => !decide (key x = k)), key x ∈ ks := by
      intro x hx
      obtain ⟨hx, hne⟩ := List.mem_filter.mp hx
      exact (List.mem_cons.mp (h x hx)).resolve_left (by simpa using hne)
    have hmembers : ks.flatMap (membersOf key (xs.filter fun x => !decide (key x = k)))
        = ks.flatMap (membersOf key xs) := by
      refine List.flatMap_congr fun j hj => ?_
      rw [membersOf_filter]
      refine List.filter_eq_self.mpr fun x hx => ?_
      have hne : key x ≠ k := (mem_membersOf.mp hx).2 ▸ fun hjk => hk (hjk ▸ hj)
      rw [decide_eq_false hne, Bool.not_false]
    rw [List.flatMap_cons, ← hmembers]
    exact ((ih hks hothers).append_left _).trans (List.filter_append_perm _ xs)

/-! ### Groups -/

/-- A member put to groups that stand for `keys`: it joins its group, or opens a
last one. -/
theorem insertGroup_map (keys : List κ) (hkeys : keys.Nodup) (members : κ → List α) (k : κ)
    (x : α) :
    insertGroup k x (keys.map fun j => (j, members j))
      = if k ∈ keys then keys.map fun j => (j, members j ++ if k = j then [x] else [])
        else (keys.map fun j => (j, members j)) ++ [(k, [x])] := by
  induction keys with
  | nil => rfl
  | cons j keys ih =>
    obtain ⟨hj, hkeys⟩ := List.nodup_cons.mp hkeys
    rw [List.map_cons, insertGroup]
    by_cases hk : j = k
    · -- the group of `k` stands here, and no further one can be meant
      subst hk
      have hrest : ∀ i ∈ keys, (i, members i ++ if j = i then [x] else []) = (i, members i) := by
        intro i hi
        rw [if_neg (fun h : j = i => hj (h ▸ hi)), List.append_nil]
      rw [if_pos rfl, if_pos List.mem_cons_self, List.map_cons, if_pos rfl,
        List.map_congr_left hrest]
    · rw [if_neg hk, ih hkeys]
      by_cases hmem : k ∈ keys
      · rw [if_pos hmem, if_pos (List.mem_cons_of_mem _ hmem), List.map_cons,
          if_neg (Ne.symm hk), List.append_nil]
      · have hne : k ∉ j :: keys := by
          rw [List.mem_cons]
          rintro (h | h)
          · exact hk h.symm
          · exact hmem h
        rw [if_neg hmem, if_neg hne, List.cons_append]

theorem groupBy_concat (key : α → κ) (xs : List α) (x : α) :
    groupBy key (xs ++ [x]) = insertGroup (key x) x (groupBy key xs) := by
  rw [groupBy, groupBy, List.foldl_append, List.foldl_cons, List.foldl_nil]

/-- **Groups by their definition.** The keys stand in the order in which they
are first seen, each with its members in their own order. -/
theorem groupBy_eq (key : α → κ) (xs : List α) :
    groupBy key xs = (keysOf key xs).map fun k => (k, membersOf key xs k) := by
  induction xs using List.reverseRecOn with
  | nil => rfl
  | append_singleton xs x ih =>
    rw [groupBy_concat, ih, insertGroup_map _ (nodup_keysOf key xs), keysOf_concat]
    by_cases hx : key x ∈ keysOf key xs
    · rw [if_pos hx, if_pos hx]
      simp only [membersOf_concat]
    · have hold : ∀ k ∈ keysOf key xs, (k, membersOf key xs k)
          = (k, membersOf key (xs ++ [x]) k) := by
        intro k hk
        rw [membersOf_concat, if_neg (fun h : key x = k => hx (h ▸ hk)), List.append_nil]
      have hnew : membersOf key (xs ++ [x]) (key x) = [x] := by
        rw [membersOf_concat, membersOf_eq_nil.mpr hx, if_pos rfl, List.nil_append]
      rw [if_neg hx, if_neg hx, List.map_append, List.map_singleton, hnew,
        List.map_congr_left hold]

theorem map_fst_groupBy (key : α → κ) (xs : List α) :
    (groupBy key xs).map Prod.fst = keysOf key xs := by
  rw [groupBy_eq, List.map_map]
  exact List.map_id _

/-- A group has members, all of them with its key. -/
theorem group_members {key : α → κ} {xs : List α} {g : κ × List α} (h : g ∈ groupBy key xs) :
    g.2 ≠ [] ∧ ∀ x ∈ g.2, x ∈ xs ∧ key x = g.1 := by
  rw [groupBy_eq, List.mem_map] at h
  obtain ⟨k, hk, rfl⟩ := h
  exact ⟨fun hnil => membersOf_eq_nil.mp hnil hk, fun x hx => mem_membersOf.mp hx⟩

theorem insertGroup_of_not_mem {k : κ} (x : α) {gs : List (κ × List α)}
    (h : k ∉ gs.map Prod.fst) : insertGroup k x gs = gs ++ [(k, [x])] := by
  induction gs with
  | nil => rfl
  | cons g gs ih =>
    rw [List.map_cons, List.mem_cons, not_or] at h
    rw [insertGroup, if_neg (Ne.symm h.1), ih h.2, List.cons_append]

/-- Members with keys of their own are groups of their own. -/
theorem groupBy_of_nodup {key : α → κ} {xs : List α} (h : (xs.map key).Nodup) :
    groupBy key xs = xs.map fun x => (key x, [x]) := by
  induction xs using List.reverseRecOn with
  | nil => rfl
  | append_singleton xs x ih =>
    rw [List.map_append, List.nodup_append] at h
    obtain ⟨hxs, -, hdisj⟩ := h
    have hnew : key x ∉ (xs.map fun x => (key x, [x])).map Prod.fst := by
      rw [List.map_map]
      exact fun hx => hdisj _ hx _ List.mem_cons_self rfl
    rw [groupBy_concat, ih hxs, insertGroup_of_not_mem x hnew, List.map_append, List.map_singleton]

theorem keysOf_of_nodup {key : α → κ} {xs : List α} (h : (xs.map key).Nodup) :
    keysOf key xs = xs.map key := by
  rw [← map_fst_groupBy, groupBy_of_nodup h, List.map_map]
  rfl

/-! ### Groups of matchers -/

/-- A matcher is of one class, and not of the other. -/
theorem Matcher.isInclusive_iff {m : Matcher} : m.isInclusive = true ↔ m.isExclusive = false := by
  rw [isInclusive, Symbol.isInclusive, Bool.not_eq_true', isExclusive]

namespace Groups

/-- A group of a class has members of the class alone. -/
theorem group_filter {p : Matcher → Bool} {ms : List Matcher} {g : Group}
    (h : g ∈ groupBy Matcher.key (ms.filter p)) :
    g.2 ≠ [] ∧ ∀ m ∈ g.2, m ∈ ms ∧ p m = true ∧ m.key = g.1 := by
  obtain ⟨hne, hmem⟩ := group_members h
  refine ⟨hne, fun m hm => ?_⟩
  obtain ⟨hfilter, hkey⟩ := hmem m hm
  obtain ⟨hms, hp⟩ := List.mem_filter.mp hfilter
  exact ⟨hms, hp, hkey⟩

theorem positive_eq (ms : List Matcher) :
    (ofMatchers ms).positive = (keysOf Matcher.key (ms.filter Matcher.isInclusive)).map
      fun k => (k, membersOf Matcher.key (ms.filter Matcher.isInclusive) k) :=
  groupBy_eq Matcher.key _

theorem negative_eq (ms : List Matcher) :
    (ofMatchers ms).negative = (keysOf Matcher.key (ms.filter Matcher.isExclusive)).map
      fun k => (k, membersOf Matcher.key (ms.filter Matcher.isExclusive) k) :=
  groupBy_eq Matcher.key _

theorem exclusive_eq (ms : List Matcher) :
    (ofMatchers ms).exclusive = (keysOf Matcher.key (ms.filter Matcher.isExclusive)).flatMap
      fun k => membersOf Matcher.key (ms.filter Matcher.isExclusive) k := by
  rw [exclusive, negative_eq, List.flatMap_map]

theorem mem_exclusive {ms : List Matcher} {m : Matcher} :
    m ∈ (ofMatchers ms).exclusive ↔ m ∈ ms ∧ m.isExclusive = true := by
  rw [exclusive_eq, List.mem_flatMap, ← List.mem_filter]
  constructor
  · rintro ⟨k, -, hm⟩
    exact (mem_membersOf.mp hm).1
  · intro hm
    exact ⟨m.key, mem_keysOf.mpr ⟨m, hm, rfl⟩, mem_membersOf.mpr ⟨hm, rfl⟩⟩

/-- A matcher is of one class or the other, so that some group has it. -/
theorem eq_nil_of_no_group {ms : List Matcher} (hp : (ofMatchers ms).positive = [])
    (hn : (ofMatchers ms).exclusive = []) : ms = [] := by
  rw [positive_eq, List.map_eq_nil_iff, keysOf_eq_nil, List.filter_eq_nil_iff] at hp
  apply List.eq_nil_iff_forall_not_mem.mpr
  intro m hm
  have hinclusive := hp m hm
  rw [Matcher.isInclusive_iff, Bool.not_eq_false] at hinclusive
  have hmem : m ∈ (ofMatchers ms).exclusive := mem_exclusive.mpr ⟨hm, hinclusive⟩
  rw [hn] at hmem
  exact List.not_mem_nil hmem

end Groups

end LogQuery
