import LogQuery.Proofs.Expression
/-!
# What trimming takes from a selector

The body of a selector is its matchers with separators between them, and then it
is trimmed.  Every matcher ends with a quote, so that nothing goes at the end and
the padding in front of the first matcher is all that goes (`body_eq_trimFirst`).
None goes where the first key has a first character that is no padding; without a
key it is the operator that decides (`body_of_operator`).
-/

namespace LogQuery.Selector

/-- The texts without the padding in front of the first one. -/
def trimFirst : List String → List String
  | [] => []
  | p :: ps => String.ofList (p.toList.dropWhile isPadding) :: ps

/-- The padding ends before the last quote of a piece. -/
theorem dropWhile_append_of_endsQuoted {p : String} (h : EndsQuoted p) (cs : List Char) :
    (p.toList ++ cs).dropWhile isPadding = p.toList.dropWhile isPadding ++ cs := by
  obtain ⟨ds, hp⟩ := h
  have hne : p.toList.dropWhile isPadding ≠ [] := by
    intro hnil
    have hquote := List.dropWhile_eq_nil_iff.mp hnil '"' (by rw [hp]; simp)
    exact absurd hquote (by decide)
  rw [List.dropWhile_append, if_neg (by simpa using hne)]

/-- **Only the padding in front of the first matcher is trimmed.** -/
theorem body_eq_trimFirst (ms : List Matcher) :
    body ms = ", ".intercalate (trimFirst (pieces ms)) := by
  rw [← String.toList_inj, toList_body]
  cases hpieces : pieces ms with
  | nil => rfl
  | cons p ps =>
    have hquoted : EndsQuoted p := endsQuoted_of_mem_pieces (hpieces ▸ List.mem_cons_self)
    rw [trimFirst, Text.intercalate_cons, Text.intercalate_cons, String.toList_append, String.toList_append,
      dropWhile_append_of_endsQuoted hquoted, String.toList_ofList]

/-- Nothing is trimmed if and only if the first matcher does not begin with padding. -/
theorem body_eq_iff {ms : List Matcher} :
    body ms = ", ".intercalate (pieces ms) ↔ ∀ p ∈ (pieces ms).head?, Unpadded p := by
  refine ⟨fun h p hp c hc => ?_, body_eq⟩
  obtain ⟨ps, hpieces⟩ := List.head?_eq_some_iff.mp hp
  obtain ⟨cs, hchars⟩ := List.head?_eq_some_iff.mp hc
  have hkept := toList_body ms
  rw [h, hpieces, Text.intercalate_cons, String.toList_append, hchars, List.cons_append] at hkept
  have hfirst := List.dropWhile_eq_self_iff.mp hkept.symm (Nat.zero_lt_succ _)
  exact Bool.eq_false_iff.mpr hfirst

/-! ### Keys -/

/-- A matcher is written from its key on. -/
theorem exists_key_of_mem_pieces {ms : List Matcher} {p : String} (h : p ∈ pieces ms) :
    ∃ m ∈ ms, ∃ rest, p = m.key ++ rest := by
  rw [pieces_eq, List.mem_map] at h
  obtain ⟨c, hc, rfl⟩ := h
  have hkey : ∃ m ∈ ms, c.key = m.key := by
    rcases List.mem_append.mp hc with hc | hc
    · obtain ⟨k, hk, rfl⟩ := List.mem_map.mp hc
      obtain ⟨m, hm, rfl⟩ := mem_keysOf.mp hk
      refine ⟨m, (List.mem_filter.mp hm).1, ?_⟩
      cases hgroup : membersOf Matcher.key (inclusive ms) m.key with
      | nil => rfl
      | cons n g =>
        cases g with
        | nil =>
          have hn : n ∈ membersOf Matcher.key (inclusive ms) m.key := hgroup ▸ List.mem_cons_self
          exact (mem_membersOf.mp hn).2
        | cons => rfl
    · obtain ⟨m, hm, rfl⟩ := List.mem_map.mp hc
      exact ⟨m, mem_exclusiveByKey hm, rfl⟩
  obtain ⟨m, hm, hkey⟩ := hkey
  exact ⟨m, hm, c.operator ++ c.operand.text, by
    rw [Syntax.Condition.text, hkey, String.append_assoc]⟩

/-- A text begins as its first part does, if there is something in it. -/
theorem unpadded_append {k : String} (hk : Unpadded k) (hne : k ≠ "") (s : String) :
    Unpadded (k ++ s) := by
  intro c hc
  cases hchars : k.toList with
  | nil => exact absurd (String.toList_inj.mp hchars) hne
  | cons d ds =>
    rw [String.toList_append, hchars] at hc
    exact hk c (by rw [hchars]; exact hc)

/-- **Trimming takes no part of a matcher.**  The body is the matchers, one for each
inclusive key and one for each exclusive matcher, with separators between them, and
without the padding in front of the first; no padding is there where keys have a
first character that is none.  Only without matchers is the body empty, and only
then every stream is selected. -/
theorem body_trimmed (ms : List Matcher) :
    pieces ms = (keysOf Matcher.key (inclusive ms)).map
        (fun k => renderPositive (k, membersOf Matcher.key (inclusive ms) k))
      ++ (exclusiveByKey ms).map Matcher.render
    ∧ body ms = ", ".intercalate (trimFirst (pieces ms))
    ∧ (body ms = ", ".intercalate (pieces ms) ↔ ∀ p ∈ (pieces ms).head?, Unpadded p)
    ∧ ((∀ m ∈ ms, m.key ≠ "" ∧ Unpadded m.key) → body ms = ", ".intercalate (pieces ms))
    ∧ (body ms = "" ↔ ms = [])
    ∧ ∀ s : FilterState, s.labels = ms → s.expression = Text.joinNonEmpty
        [if ms = [] then all else "\x7b" ++ body ms ++ "\x7d", Stage.metadata s.metadata,
          Stage.levels s.levels, Stage.fields s.fields, LineFilter.renderAll s.lineFilters,
          Pattern.renderAll s.patterns] := by
  refine ⟨?_, body_eq_trimFirst ms, body_eq_iff, fun hkeys => ?_, body_eq_empty, ?_⟩
  · rw [pieces, Groups.positive_eq, Groups.exclusive_eq, List.map_map]
    rfl
  · refine body_eq fun p hp => ?_
    obtain ⟨m, hm, rest, rfl⟩ := exists_key_of_mem_pieces (List.mem_of_mem_head? hp)
    exact unpadded_append (hkeys m hm).2 (hkeys m hm).1 rest
  · rintro s rfl
    have hselector : s.fragments.selector
        = if s.labels = [] then all else "\x7b" ++ body s.labels ++ "\x7d" := by
      show (if body s.labels = "" then all else "\x7b" ++ body s.labels ++ "\x7d") = _
      simp only [body_eq_empty]
    rw [FilterState.expression, Fragments.expression, hselector]
    rfl

/-- Values that end with padding, at the end of the body too, and no inclusive matcher. -/
theorem body_trimmed_padded :
    body [⟨"a", "!=", "x, "⟩, ⟨"b", "!~", emptyMarker⟩, ⟨"a", "!=", " ,"⟩]
      = "a!=\"x, \", a!=\" ,\", b!~\"\"" := by
  obtain ⟨hpieces, -, -, hkeys, -⟩ := body_trimmed
    [⟨"a", "!=", "x, "⟩, ⟨"b", "!~", emptyMarker⟩, ⟨"a", "!=", " ,"⟩]
  exact (hkeys (by decide)).trans (by rw [hpieces]; decide)

/-- Without a key the padding of an operator is trimmed. -/
theorem body_of_operator :
    Unpadded "" ∧ pieces [⟨"", ",", "x"⟩] = [",\"x\""] ∧ body [⟨"", ",", "x"⟩] = "\"x\""
      ∧ body [⟨"", ",", "x"⟩] ≠ ", ".intercalate (pieces [⟨"", ",", "x"⟩]) := by
  decide

end LogQuery.Selector
