import LogQuery.Proofs.Expression
import LogQuery.Proofs.Join
/-!
# What filters select

Filters on labels are met by an assignment of texts to the keys.  Among the
inclusive filters of a key any may hold, of the exclusive ones all must.  Where
values are literal, or patterns of literal alternatives, a matcher holds if the
text is among its alternatives, or is not (`Matcher.holds_of_inclusive`,
`Matcher.holds_of_exclusive`).  Joining puts the alternatives of a group together,
so that the joined filters and the matchers of the selector say the same as the
filters (`selects_iff_join`, `selects_iff_reread`).
-/

namespace LogQuery

open Syntax

/-! ### Assignments -/

/-- `accepts p x` says that the regular expression `p` matches the whole of `x`. -/
def Matcher.Holds (accepts : String → String → Prop) (ρ : String → String) (m : Matcher) : Prop :=
  if m.operator = Operator.equal.symbol then ρ m.key = m.value
  else if m.operator = Operator.notEqual.symbol then ρ m.key ≠ m.value
  else if m.operator = Operator.matching.symbol then accepts m.value (ρ m.key)
  else if m.operator = Operator.notMatching.symbol then ¬ accepts m.value (ρ m.key)
  else False

/-- Any of the inclusive matchers of each key, and all of the exclusive ones. -/
def Selects (accepts : String → String → Prop) (ρ : String → String) (ms : List Matcher) : Prop :=
  (∀ k, (∃ m ∈ ms, m.isInclusive = true ∧ m.key = k) →
      ∃ m ∈ ms, m.isInclusive = true ∧ m.key = k ∧ m.Holds accepts ρ)
    ∧ ∀ m ∈ ms, m.isExclusive = true → m.Holds accepts ρ

/-! ### Literal values -/

/-- Nothing in the text means anything to a regular expression. -/
def Literal.isPlain (s : String) : Bool := s.toList.all fun c => !isMeta c

/-- A regular expression without anything but bars between its alternatives. -/
def Literal.isChoice (p : String) : Bool := (Text.alternatives p).all isPlain

/-- A pattern of literal alternatives matches them and nothing else. -/
def ReadsChoices (accepts : String → String → Prop) : Prop :=
  ∀ p x, Literal.isChoice p = true → (accepts p x ↔ x ∈ Text.alternatives p)

/-- The value is not the empty marker; it is compared as a literal, or matched as
a choice of literals. -/
def Matcher.IsLiteral (m : Matcher) : Prop :=
  m.value ≠ emptyMarker ∧
    ((m.operator = Operator.equal.symbol ∨ m.operator = Operator.notEqual.symbol)
        ∧ Literal.isPlain m.value = true
      ∨ (m.operator = Operator.matching.symbol ∨ m.operator = Operator.notMatching.symbol)
        ∧ Literal.isChoice m.value = true)

instance (m : Matcher) : Decidable m.IsLiteral := inferInstanceAs (Decidable (_ ∧ (_ ∨ _)))

theorem Literal.alternatives_of_isPlain {s : String} (h : isPlain s = true) :
    Text.alternatives s = [s] := by
  apply Text.alternatives_of_not_mem
  intro hbar
  have hmeta := List.all_eq_true.mp h '|' hbar
  exact absurd hmeta (by decide)

theorem Literal.isChoice_of_isPlain {s : String} (h : isPlain s = true) : isChoice s = true := by
  rw [isChoice, alternatives_of_isPlain h, List.all_cons, h]
  rfl

namespace Matcher

variable {accepts : String → String → Prop} {ρ : String → String} {m : Matcher}

theorem IsLiteral.isChoice (h : m.IsLiteral) : Literal.isChoice m.value = true := by
  rcases h.2 with ⟨-, hplain⟩ | ⟨-, hchoice⟩
  · exact Literal.isChoice_of_isPlain hplain
  · exact hchoice

theorem IsLiteral.operator_of_inclusive (h : m.IsLiteral) (hinclusive : m.isInclusive = true) :
    m.operator = Operator.equal.symbol ∧ Literal.isPlain m.value = true
      ∨ m.operator = Operator.matching.symbol := by
  rw [isInclusive] at hinclusive
  rcases h.2 with ⟨ho | ho, hplain⟩ | ⟨ho | ho, -⟩
  · exact Or.inl ⟨ho, hplain⟩
  · rw [ho] at hinclusive
    exact absurd hinclusive (by decide)
  · exact Or.inr ho
  · rw [ho] at hinclusive
    exact absurd hinclusive (by decide)

theorem IsLiteral.operator_of_exclusive (h : m.IsLiteral) (hexclusive : m.isExclusive = true) :
    m.operator = Operator.notEqual.symbol ∧ Literal.isPlain m.value = true
      ∨ m.operator = Operator.notMatching.symbol := by
  rw [isExclusive] at hexclusive
  rcases h.2 with ⟨ho | ho, hplain⟩ | ⟨ho | ho, -⟩
  · rw [ho] at hexclusive
    exact absurd hexclusive (by decide)
  · exact Or.inl ⟨ho, hplain⟩
  · rw [ho] at hexclusive
    exact absurd hexclusive (by decide)
  · exact Or.inr ho

/-- **An inclusive matcher holds** of its alternatives. -/
theorem holds_of_inclusive (haccepts : ReadsChoices accepts) (h : m.IsLiteral)
    (hinclusive : m.isInclusive = true) :
    m.Holds accepts ρ ↔ ρ m.key ∈ Text.alternatives m.value := by
  rcases h.operator_of_inclusive hinclusive with ⟨ho, hplain⟩ | ho
  · rw [Holds, if_pos ho, Literal.alternatives_of_isPlain hplain, List.mem_singleton]
  · rw [Holds, ho, if_neg (by decide), if_neg (by decide), if_pos rfl]
    exact haccepts m.value (ρ m.key) h.isChoice

/-- **An exclusive matcher holds** of all but its alternatives. -/
theorem holds_of_exclusive (haccepts : ReadsChoices accepts) (h : m.IsLiteral)
    (hexclusive : m.isExclusive = true) :
    m.Holds accepts ρ ↔ ρ m.key ∉ Text.alternatives m.value := by
  rcases h.operator_of_exclusive hexclusive with ⟨ho, hplain⟩ | ho
  · rw [Holds, ho, if_neg (by decide), if_pos rfl, Literal.alternatives_of_isPlain hplain,
      List.mem_singleton]
  · rw [Holds, ho, if_neg (by decide), if_neg (by decide), if_neg (by decide), if_pos rfl]
    exact not_congr (haccepts m.value (ρ m.key) h.isChoice)

end Matcher

/-! ### Joined groups -/

namespace Join

variable {accepts : String → String → Prop} {ρ : String → String} {k : String} {ms : List Matcher}

/-- **The alternatives of a group are put together.** -/
theorem mem_alternatives_joinGroup {operator : Operator} (hne : ms ≠ []) {x : String} :
    x ∈ Text.alternatives (joinGroup operator (k, ms)).value
      ↔ ∃ m ∈ ms, x ∈ Text.alternatives m.value := by
  have hvalues : ms.map Matcher.value ≠ [] := by simpa using hne
  rw [value_joinGroup, Text.alternatives_alternation hvalues, List.flatMap_map, List.mem_flatMap]

theorem isLiteral_joinGroup {operator : Operator}
    (ho : operator = .matching ∨ operator = .notMatching) (hne : ms ≠ [])
    (h : ∀ m ∈ ms, m.IsLiteral) : (joinGroup operator (k, ms)).IsLiteral := by
  have hchoice : Literal.isChoice (joinGroup operator (k, ms)).value = true := by
    apply List.all_eq_true.mpr
    intro p hp
    obtain ⟨m, hm, hp⟩ := (mem_alternatives_joinGroup hne).mp hp
    exact List.all_eq_true.mp (h m hm).isChoice p hp
  cases ms with
  | nil => exact absurd rfl hne
  | cons m ms =>
    cases ms with
    | nil => exact h m List.mem_cons_self
    | cons n ms =>
      refine ⟨alternation_ne_emptyMarker m.value n.value (ms.map Matcher.value), ?_⟩
      refine Or.inr ⟨?_, hchoice⟩
      rcases ho with rfl | rfl
      · exact Or.inl rfl
      · exact Or.inr rfl

/-- **A joined inclusive group holds where a member does.** -/
theorem holds_joinGroup_matching (haccepts : ReadsChoices accepts) (hne : ms ≠ [])
    (h : ∀ m ∈ ms, m.IsLiteral ∧ m.isInclusive = true ∧ m.key = k) :
    (joinGroup .matching (k, ms)).Holds accepts ρ ↔ ∃ m ∈ ms, m.Holds accepts ρ := by
  rw [Matcher.holds_of_inclusive haccepts
      (isLiteral_joinGroup (Or.inl rfl) hne fun m hm => (h m hm).1)
      (operator_joinGroup (p := Symbol.isInclusive) rfl fun m hm => (h m hm).2.1),
    key_joinGroup, mem_alternatives_joinGroup hne]
  refine exists_congr fun m => and_congr_right fun hm => ?_
  obtain ⟨hliteral, hinclusive, hkey⟩ := h m hm
  rw [Matcher.holds_of_inclusive haccepts hliteral hinclusive, hkey]

/-- **A joined exclusive group holds where all members do.** -/
theorem holds_joinGroup_notMatching (haccepts : ReadsChoices accepts) (hne : ms ≠ [])
    (h : ∀ m ∈ ms, m.IsLiteral ∧ m.isExclusive = true ∧ m.key = k) :
    (joinGroup .notMatching (k, ms)).Holds accepts ρ ↔ ∀ m ∈ ms, m.Holds accepts ρ := by
  rw [Matcher.holds_of_exclusive haccepts
      (isLiteral_joinGroup (Or.inr rfl) hne fun m hm => (h m hm).1)
      (operator_joinGroup (p := Symbol.isExclusive) rfl fun m hm => (h m hm).2.1),
    key_joinGroup, mem_alternatives_joinGroup hne]
  constructor
  · intro hnone m hm
    obtain ⟨hliteral, hexclusive, hkey⟩ := h m hm
    rw [Matcher.holds_of_exclusive haccepts hliteral hexclusive, hkey]
    exact fun hmem => hnone ⟨m, hm, hmem⟩
  · rintro hall ⟨m, hm, hmem⟩
    obtain ⟨hliteral, hexclusive, hkey⟩ := h m hm
    have hm' := (Matcher.holds_of_exclusive haccepts hliteral hexclusive).mp (hall m hm)
    rw [hkey] at hm'
    exact hm' hmem

end Join

/-! ### Selection by groups -/

section Selection

variable {accepts : String → String → Prop} {ρ : String → String} {ms : List Matcher}

/-- The groups are the keys of the inclusive matchers, with all that they have. -/
theorem selects_iff_groups :
    Selects accepts ρ ms
      ↔ (∀ g ∈ (Groups.ofMatchers ms).positive, ∃ m ∈ g.2, m.Holds accepts ρ)
        ∧ ∀ m ∈ (Groups.ofMatchers ms).exclusive, m.Holds accepts ρ := by
  constructor
  · rintro ⟨hinclusive, hexclusive⟩
    refine ⟨fun g hg => ?_, fun m hm => ?_⟩
    · rw [Groups.positive_eq, List.mem_map] at hg
      obtain ⟨k, hk, rfl⟩ := hg
      obtain ⟨m, hm, hkey⟩ := mem_keysOf.mp hk
      obtain ⟨hm, hclass⟩ := List.mem_filter.mp hm
      obtain ⟨n, hn, hclass', hkey', hholds⟩ := hinclusive k ⟨m, hm, hclass, hkey⟩
      exact ⟨n, mem_membersOf.mpr ⟨List.mem_filter.mpr ⟨hn, hclass'⟩, hkey'⟩, hholds⟩
    · obtain ⟨hm, hclass⟩ := Groups.mem_exclusive.mp hm
      exact hexclusive m hm hclass
  · rintro ⟨hpositive, hexclusive⟩
    refine ⟨?_, fun m hm hclass => hexclusive m (Groups.mem_exclusive.mpr ⟨hm, hclass⟩)⟩
    rintro k ⟨m, hm, hclass, hkey⟩
    have hk : k ∈ keysOf Matcher.key (ms.filter Matcher.isInclusive) :=
      mem_keysOf.mpr ⟨m, List.mem_filter.mpr ⟨hm, hclass⟩, hkey⟩
    have hgroup : (k, membersOf Matcher.key (ms.filter Matcher.isInclusive) k)
        ∈ (Groups.ofMatchers ms).positive := by
      rw [Groups.positive_eq]
      exact List.mem_map_of_mem hk
    obtain ⟨n, hn, hholds⟩ := hpositive _ hgroup
    obtain ⟨hn, hkey'⟩ := mem_membersOf.mp hn
    obtain ⟨hn, hclass'⟩ := List.mem_filter.mp hn
    exact ⟨n, hn, hclass', hkey', hholds⟩

theorem holds_positive_iff (haccepts : ReadsChoices accepts) (h : ∀ m ∈ ms, m.IsLiteral) :
    (∀ g ∈ (Groups.ofMatchers ms).positive, ∃ m ∈ g.2, m.Holds accepts ρ)
      ↔ ∀ g ∈ (Groups.ofMatchers ms).positive, (Join.joinGroup .matching g).Holds accepts ρ := by
  refine forall_congr' fun g => imp_congr_right fun hg => ?_
  obtain ⟨hne, hmem⟩ := Groups.group_filter hg
  exact (Join.holds_joinGroup_matching haccepts hne
    fun m hm => ⟨h m (hmem m hm).1, (hmem m hm).2⟩).symm

theorem holds_exclusive_iff (haccepts : ReadsChoices accepts) (h : ∀ m ∈ ms, m.IsLiteral) :
    (∀ m ∈ (Groups.ofMatchers ms).exclusive, m.Holds accepts ρ)
      ↔ ∀ g ∈ (Groups.ofMatchers ms).negative, (Join.joinGroup .notMatching g).Holds accepts ρ := by
  rw [Groups.exclusive, List.forall_mem_flatMap]
  refine forall_congr' fun g => imp_congr_right fun hg => ?_
  obtain ⟨hne, hmem⟩ := Groups.group_filter hg
  exact (Join.holds_joinGroup_notMatching haccepts hne
    fun m hm => ⟨h m (hmem m hm).1, (hmem m hm).2⟩).symm

/-- **Joined matchers select what the matchers do.** -/
theorem selects_iff_join (haccepts : ReadsChoices accepts) (h : ∀ m ∈ ms, m.IsLiteral) :
    Selects accepts ρ ms ↔ ∀ m ∈ Join.join ms, m.Holds accepts ρ := by
  rw [selects_iff_groups, holds_positive_iff haccepts h, holds_exclusive_iff haccepts h, Join.join,
    List.forall_mem_append, List.forall_mem_map, List.forall_mem_map]

end Selection

/-! ### The selector read back -/

namespace Syntax

def Operand.content : Operand → String
  | quoted s => s
  | raw s => s
  | bare s => s

def Condition.matcher (c : Condition) : Matcher := ⟨c.key, c.operator, c.operand.content⟩

/-- The matchers of a text that stands in braces. -/
def readBody? (body : String) : Option (List Matcher) :=
  match read? ("\x7b" ++ body ++ "\x7d") with
  | some [.selector cs] => some (cs.map Condition.matcher)
  | _ => none

end Syntax

namespace Selector

variable {ms : List Matcher}

theorem readBody?_body (h : ∀ m ∈ ms, m.Writable) :
    readBody? (body ms) = some ((conditions ms).map Condition.matcher) := by
  have hprint : "\x7b" ++ body ms ++ "\x7d" = print [.selector (conditions ms)] := by
    rw [body_eq_conditions h, print, List.map_singleton, String.intercalate_singleton, Clause.text]
  have hread : read? ("\x7b" ++ body ms ++ "\x7d") = some [.selector (conditions ms)] := by
    rw [hprint]
    apply read?_print
    intro c hc
    rw [List.mem_singleton.mp hc]
    exact readable_conditions h
  rw [readBody?, hread]

theorem matcher_condition {m : Matcher} (h : m.value ≠ emptyMarker) : m.condition.matcher = m := by
  rw [Matcher.condition, if_neg h]
  rfl

/-- What is read back of a group is the group joined. -/
theorem matcher_collapse {k : String} (h : ∀ m ∈ ms, m.value ≠ emptyMarker ∧ m.key = k) :
    (collapse k ms).matcher = Join.joinGroup .matching (k, ms) := by
  cases ms with
  | nil => rfl
  | cons m ms =>
    cases ms with
    | nil =>
      obtain ⟨hmarker, rfl⟩ := h m List.mem_cons_self
      exact matcher_condition hmarker
    | cons n ms => rfl

theorem map_matcher_conditions (h : ∀ m ∈ ms, m.value ≠ emptyMarker) :
    (conditions ms).map Condition.matcher
      = (Groups.ofMatchers ms).positive.map (Join.joinGroup .matching)
        ++ (Groups.ofMatchers ms).exclusive := by
  have hexclusive : (exclusiveByKey ms).map (Condition.matcher ∘ Matcher.condition)
      = exclusiveByKey ms := by
    refine (List.map_congr_left fun m hm => ?_).trans (List.map_id _)
    exact matcher_condition (h m (mem_exclusiveByKey hm))
  rw [conditions, List.map_append, List.map_map, List.map_map, hexclusive, Groups.positive_eq,
    Groups.exclusive_eq, List.map_map]
  congr 1
  refine List.map_congr_left fun k _ => matcher_collapse fun m hm => ?_
  obtain ⟨hm, hkey⟩ := mem_membersOf.mp hm
  exact ⟨h m (List.mem_filter.mp hm).1, hkey⟩

end Selector

/-- **Matchers that are read back select what the matchers do.** -/
theorem selects_iff_reread {accepts : String → String → Prop} {ρ : String → String}
    {ms : List Matcher} (haccepts : ReadsChoices accepts) (h : ∀ m ∈ ms, m.IsLiteral) :
    Selects accepts ρ ms
      ↔ ∀ m ∈ (Selector.conditions ms).map Condition.matcher, m.Holds accepts ρ := by
  rw [Selector.map_matcher_conditions fun m hm => (h m hm).1, List.forall_mem_append,
    List.forall_mem_map, ← holds_positive_iff haccepts h, selects_iff_groups]

theorem Matcher.IsLiteral.isOperator {m : Matcher} (h : m.IsLiteral) :
    isOperator m.operator = true := by
  rcases h.2 with ⟨ho | ho, -⟩ | ⟨ho | ho, -⟩
  · exact ho ▸ isOperator_symbol .equal
  · exact ho ▸ isOperator_symbol .notEqual
  · exact ho ▸ isOperator_symbol .matching
  · exact ho ▸ isOperator_symbol .notMatching

/-- **Joining and compiling keep the meaning.**  The filters select what the
joined ones do, and what the matchers do that are read back from the compiled
selector.  Reading needs words for keys, as the names of labels are. -/
theorem selects_iff_joined_and_compiled (accepts : String → String → Prop)
    (haccepts : ReadsChoices accepts) (ρ : String → String) (fs : List Filter)
    (hfs : ∀ f ∈ fs, f.toMatcher.IsLiteral) :
    (Selects accepts ρ (matchers fs) ↔ ∀ f ∈ Join.joinFilters fs, f.toMatcher.Holds accepts ρ)
    ∧ ((∀ f ∈ fs, Kind.word.spells f.key = true) →
      ∃ ms, readBody? (Selector.body (matchers fs)) = some ms
        ∧ (Selects accepts ρ (matchers fs) ↔ ∀ m ∈ ms, m.Holds accepts ρ)) := by
  have hliteral : ∀ m ∈ matchers fs, m.IsLiteral := forall_mem_matchers hfs
  constructor
  · rw [selects_iff_join haccepts hliteral, Join.joinFilters, List.forall_mem_map]
    rfl
  · intro hkeys
    have hwritable : ∀ m ∈ matchers fs, m.Writable :=
      forall_mem_matchers fun f hf => ⟨hkeys f hf, (hfs f hf).isOperator⟩
    exact ⟨_, Selector.readBody?_body hwritable, selects_iff_reread haccepts hliteral⟩

/-- A pattern with an empty alternative next to a literal, and an exclusive one. -/
theorem selects_empty_alternative :
    ∃ ms, readBody? (Selector.body [⟨"level", "=", "info"⟩, ⟨"host", "!~", "a|b"⟩,
        ⟨"level", "=~", "warn|"⟩]) = some ms
      ∧ ∀ m ∈ ms, m.Holds (fun p x => x ∈ Text.alternatives p) fun _ => "" := by
  have hsound := selects_iff_joined_and_compiled (fun p x => x ∈ Text.alternatives p)
    (fun _ _ _ => Iff.rfl) (fun _ => "") [⟨⟨"level", "=", "info"⟩, none, none⟩,
      ⟨⟨"host", "!~", "a|b"⟩, none, none⟩, ⟨⟨"level", "=~", "warn|"⟩, none, none⟩] (by decide)
  obtain ⟨ms, hread, hiff⟩ := hsound.2 (by decide)
  refine ⟨ms, hread, hiff.mp (hsound.1.mpr fun f hf => ?_)⟩
  have hjoined : f ∈ [Matcher.toFilter ⟨"level", "=~", "info|warn|"⟩,
      Matcher.toFilter ⟨"host", "!~", "a|b"⟩] := hf
  rcases List.mem_cons.mp hjoined with rfl | hf
  · show "" ∈ Text.alternatives "info|warn|"
    decide
  · rw [List.mem_singleton.mp hf]
    show "" ∉ Text.alternatives "a|b"
    decide

end LogQuery
