import LogQuery.Proofs.Absorption
import LogQuery.Proofs.Stage
import LogQuery.Proofs.Variables
import Mathlib.Algebra.BigOperators.Ring.List
/-!
# The empty marker

The empty marker is written as it is, two quotes that make an empty literal.  So a
condition of the marker is one of the empty text (`Matcher.condition_emptied`), and
stages, which write each condition for itself, do not tell the two apart
(`Stage.metadata_congr`, `Stage.fields_congr`).

Where the matchers of a key are put into one literal, the marker is a value like any
other, and its quotes are escaped.  Every marker that stands on its key with others
brings two backslashes (`backslashes_joined`); the selectors are those of the empty
value if there is none of them (`unchanged_iff_uncrowded`).
-/

namespace LogQuery

open Syntax

/-! ### Nothing in the place of the marker -/

/-- The value, with the empty text for the empty marker. -/
def unmarked (value : String) : String := if value = emptyMarker then "" else value

def Matcher.emptied (m : Matcher) : Matcher := { m with value := unmarked m.value }

def Filter.emptied (f : Filter) : Filter := { f with value := unmarked f.value }

def FieldEntry.emptied : FieldEntry → FieldEntry
  | enveloped f => enveloped f.emptied
  | decoded f => decoded { f with value := { f.value with value := unmarked f.value.value } }

theorem unmarked_of_ne {value : String} (h : value ≠ emptyMarker) : unmarked value = value :=
  if_neg h

theorem unmarked_unmarked (value : String) : unmarked (unmarked value) = unmarked value := by
  by_cases h : value = emptyMarker
  · subst h
    rfl
  · rw [unmarked_of_ne h, unmarked_of_ne h]

/-- **The marker asks for the empty value.** -/
theorem Matcher.condition_emptied (m : Matcher) : m.emptied.condition = m.condition :=
  congrArg (fun value => (⟨m.key, m.operator, .quoted value⟩ : Condition))
    (unmarked_unmarked m.value)

theorem Matcher.render_emptied (m : Matcher) : m.emptied.render = m.render := by
  rw [← text_condition, ← text_condition, condition_emptied]

/-- A text that is no envelope is its own value, the marker and the empty text alike. -/
theorem FieldEntry.condition_emptied (e : FieldEntry) :
    e.emptied.matcher.condition = e.matcher.condition := by
  cases e with
  | enveloped f =>
    by_cases hv : f.value = emptyMarker
    · have hempty : Envelope.decode "" = ⟨"", .mixed⟩ := by decide
      have hmarker : Envelope.decode emptyMarker = ⟨emptyMarker, .mixed⟩ := by decide
      show Matcher.condition ⟨f.key, f.operator, (Envelope.decode (unmarked f.value)).value⟩
        = Matcher.condition ⟨f.key, f.operator, (Envelope.decode f.value).value⟩
      rw [hv, show unmarked emptyMarker = "" from rfl, hempty, hmarker]
      rfl
    · show Matcher.condition ⟨f.key, f.operator, (Envelope.decode (unmarked f.value)).value⟩
        = Matcher.condition ⟨f.key, f.operator, (Envelope.decode f.value).value⟩
      rw [unmarked_of_ne hv]
  | decoded f => exact f.toMatcher.condition_emptied

/-! ### Stages -/

namespace Stage

/-- The conditions of each key as a clause. -/
def conditionClauses (cs : List Condition) : List Clause :=
  (keysOf Condition.key cs).map fun k => .filter (membersOf Condition.key cs k)

theorem map_clause_inclusiveByKey (ms : List Matcher) :
    (inclusiveByKey ms).map clause = conditionClauses ((inclusive ms).map Matcher.condition) := by
  rw [inclusiveByKey, conditionClauses, keysOf_map, List.map_map]
  exact List.map_congr_left fun k _ => by rw [membersOf_map]; rfl

theorem map_condition_exclusiveByKey (ms : List Matcher) :
    (exclusiveByKey ms).map Matcher.condition
      = (keysOf Condition.key ((exclusive ms).map Matcher.condition)).flatMap
        (membersOf Condition.key ((exclusive ms).map Matcher.condition)) := by
  rw [exclusiveByKey, List.map_flatMap, keysOf_map]
  exact List.flatMap_congr fun k _ => (membersOf_map Condition.key Matcher.condition _ k).symm

theorem map_clause_single (ms : List Matcher) :
    (ms.map fun m => clause [m]) = (ms.map Matcher.condition).map fun c => .filter [c] := by
  rw [List.map_map]
  rfl

variable {ms ns : List Matcher}

/-- The class of a matcher shows in its condition. -/
theorem map_condition_filter_congr (h : ms.map Matcher.condition = ns.map Matcher.condition)
    (p : String → Bool) : (ms.filter fun m => p m.operator).map Matcher.condition
      = (ns.filter fun m => p m.operator).map Matcher.condition := by
  have hfilter : ∀ xs : List Matcher, (xs.filter fun m => p m.operator).map Matcher.condition
      = (xs.map Matcher.condition).filter fun c => p c.operator := fun xs =>
    (List.filter_map (p := fun c : Condition => p c.operator)).symm
  rw [hfilter, hfilter, h]

/-- **Stages are written from their conditions.** -/
theorem metadata_congr (h : ms.map Matcher.condition = ns.map Matcher.condition) :
    metadata ms = metadata ns := by
  have hinclusive : (inclusive ms).map Matcher.condition = (inclusive ns).map Matcher.condition :=
    map_condition_filter_congr h Symbol.isInclusive
  have hexclusive : (exclusive ms).map Matcher.condition = (exclusive ns).map Matcher.condition :=
    map_condition_filter_congr h Symbol.isExclusive
  rw [metadata_eq_print, metadata_eq_print, metadataClauses, metadataClauses,
    map_clause_inclusiveByKey, map_clause_inclusiveByKey, map_clause_single, map_clause_single,
    map_condition_exclusiveByKey, map_condition_exclusiveByKey, hinclusive, hexclusive]

theorem fields_congr (hms : ∀ m ∈ ms, m.isNumeric = false)
    (h : ms.map Matcher.condition = ns.map Matcher.condition) : fields ms = fields ns := by
  have hns : ∀ n ∈ ns, n.isNumeric = false := by
    intro n hn
    have hmem : n.condition ∈ ms.map Matcher.condition := h ▸ List.mem_map_of_mem hn
    obtain ⟨m, hm, hcondition⟩ := List.mem_map.mp hmem
    have hoperator : m.operator = n.operator := congrArg Condition.operator hcondition
    rw [Matcher.isNumeric, ← hoperator]
    exact hms m hm
  have hinclusive : (inclusive ms).map Matcher.condition = (inclusive ns).map Matcher.condition :=
    map_condition_filter_congr h Symbol.isInclusive
  have hexclusive : (exclusive ms).map Matcher.condition = (exclusive ns).map Matcher.condition :=
    map_condition_filter_congr h Symbol.isExclusive
  rw [fields_eq_print, fields_eq_print, fieldClauses_eq hms, fieldClauses_eq hns,
    map_clause_inclusiveByKey, map_clause_inclusiveByKey, map_clause_single, map_clause_single,
    hinclusive, hexclusive]

end Stage

/-! ### Backslashes -/

def backslashes (s : String) : Nat := s.toList.count '\\'

theorem backslashes_append (s t : String) :
    backslashes (s ++ t) = backslashes s + backslashes t := by
  rw [backslashes, String.toList_append, List.count_append]
  rfl

theorem backslashes_intercalate {sep : String} (hsep : backslashes sep = 0) (ps : List String) :
    backslashes (sep.intercalate ps) = (ps.map backslashes).sum := by
  induction ps with
  | nil => rfl
  | cons p ps ih =>
    cases ps with
    | nil => rw [String.intercalate_singleton, List.map_singleton, List.sum_singleton]
    | cons q qs =>
      rw [String.intercalate_cons_cons, backslashes_append, backslashes_append, hsep, ih,
        Nat.add_zero, ← List.sum_cons, ← List.map_cons]

theorem backslashes_quote (s : String) :
    backslashes (Literal.quote s) = backslashes (Literal.escape s) := by
  have hquote : backslashes "\"" = 0 := by decide
  rw [Literal.quote, backslashes_append, backslashes_append, hquote, Nat.zero_add, Nat.add_zero]

/-- The quotes of the marker are escaped, each with a backslash. -/
theorem backslashes_escape (value : String) :
    backslashes (Literal.escape value) = backslashes (Literal.escape (unmarked value))
      + if value = emptyMarker then 2 else 0 := by
  by_cases hv : value = emptyMarker
  · rw [hv]
    decide
  · rw [unmarked_of_ne hv, if_neg hv, Nat.add_zero]

theorem backslashes_alternation (values : List String) :
    backslashes (Literal.quote (Text.alternation values))
      = ((values.map Literal.escape).map backslashes).sum := by
  have hbar : backslashes "|" = 0 := by decide
  rw [backslashes_quote, Literal.escape_alternation, Text.alternation,
    backslashes_intercalate hbar]

/-- Padding has no backslashes, so that the trimming takes none. -/
theorem count_dropWhile {α : Type} [BEq α] [LawfulBEq α] {p : α → Bool} {a : α} (h : p a = false)
    (xs : List α) : (xs.dropWhile p).count a = xs.count a := by
  induction xs with
  | nil => rfl
  | cons x xs ih =>
    cases hx : p x with
    | true =>
      have hne : x ≠ a := by
        rintro rfl
        rw [h] at hx
        cases hx
      rw [List.dropWhile_cons_of_pos hx, ih, List.count_cons_of_ne hne]
    | false => rw [List.dropWhile_cons_of_neg (by rw [hx]; exact Bool.false_ne_true)]

namespace Selector

theorem backslashes_body (ms : List Matcher) :
    backslashes (body ms) = ((pieces ms).map backslashes).sum := by
  have hsep : backslashes ", " = 0 := by decide
  have hpadding : isPadding '\\' = false := by decide
  rw [← backslashes_intercalate hsep, backslashes, toList_body, count_dropWhile hpadding]
  rfl

theorem backslashes_ofMatchers (ms : List Matcher) :
    backslashes (ofMatchers ms) = ((ms.map Matcher.render).map backslashes).sum := by
  have hsep : backslashes ", " = 0 := by decide
  have hopen : backslashes "\x7b" = 0 := by decide
  have hclose : backslashes "\x7d" = 0 := by decide
  by_cases hms : ms = []
  · rw [hms]
    rfl
  · rw [ofMatchers, if_neg hms, backslashes_append, backslashes_append, hopen, hclose,
      backslashes_intercalate hsep, Nat.zero_add, Nat.add_zero]

end Selector

/-! ### Markers in one literal with others -/

/-- The empty markers that stand on their key with others. -/
def crowded (ms : List Matcher) : List Matcher :=
  ms.filter fun m => m.value = emptyMarker && 1 < (membersOf Matcher.key ms m.key).length

theorem mem_crowded {ms : List Matcher} {m : Matcher} : m ∈ crowded ms
    ↔ m ∈ ms ∧ m.value = emptyMarker ∧ 1 < (membersOf Matcher.key ms m.key).length := by
  rw [crowded, List.mem_filter, Bool.and_eq_true, decide_eq_true_iff, decide_eq_true_iff]

/-- Whether a marker is crowded is seen in its group. -/
theorem membersOf_crowded (ms : List Matcher) (k : String) :
    membersOf Matcher.key (crowded ms) k = crowded (membersOf Matcher.key ms k) := by
  rw [crowded, crowded, membersOf_filter]
  refine List.filter_congr fun m hm => ?_
  rw [(mem_membersOf.mp hm).2, membersOf_membersOf]

theorem length_crowded (ms : List Matcher) : (crowded ms).length
    = ((keysOf Matcher.key ms).map fun k => (crowded (membersOf Matcher.key ms k)).length).sum := by
  have hperm : ((keysOf Matcher.key ms).flatMap (membersOf Matcher.key (crowded ms))).Perm
      (crowded ms) :=
    flatMap_membersOf_perm (nodup_keysOf Matcher.key ms) fun m hm =>
      mem_keysOf.mpr ⟨m, (mem_crowded.mp hm).1, rfl⟩
  rw [← hperm.length_eq, List.length_flatMap]
  simp only [membersOf_crowded]

namespace Join

/-! ### Joined classes -/

section Class

variable {operator : Operator} {k : String} {g ms : List Matcher}

/-- A matcher on its own is joined to itself, with its marker or without. -/
theorem render_joinGroup_single (m : Matcher) :
    (joinGroup operator (k, [m.emptied])).render = (joinGroup operator (k, [m])).render :=
  Matcher.render_emptied ⟨k, m.operator, m.value⟩

/-- Several matchers are one literal, in which no value is the marker. -/
theorem render_joinGroup_many (operator : Operator) (k : String) (m n : Matcher)
    (ms : List Matcher) : (joinGroup operator (k, m :: n :: ms)).render
      = k ++ operator.symbol
        ++ Literal.quote (Text.alternation ((m :: n :: ms).map Matcher.value)) :=
  if_neg (alternation_ne_emptyMarker m.value n.value (ms.map Matcher.value))

theorem backslashes_values (ms : List Matcher) :
    (((ms.map Matcher.value).map Literal.escape).map backslashes).sum
      = ((((ms.map Matcher.emptied).map Matcher.value).map Literal.escape).map backslashes).sum
        + 2 * (ms.filter fun m => m.value = emptyMarker).length := by
  induction ms with
  | nil => rfl
  | cons m ms ih =>
    have hm := backslashes_escape m.value
    have hemptied : m.emptied.value = unmarked m.value := rfl
    simp only [List.map_cons, List.sum_cons, hemptied, List.filter_cons, decide_eq_true_eq]
    split_ifs at hm ⊢ with hv
    · rw [List.length_cons]
      omega
    · omega

/-- In a group of several every marker is crowded. -/
theorem crowded_of_many {m n : Matcher} (hkey : ∀ x ∈ m :: n :: ms, x.key = k) :
    crowded (m :: n :: ms) = (m :: n :: ms).filter fun x => x.value = emptyMarker := by
  refine List.filter_congr fun x hx => ?_
  have hgroup : membersOf Matcher.key (m :: n :: ms) x.key = m :: n :: ms :=
    List.filter_eq_self.mpr fun y hy => decide_eq_true ((hkey y hy).trans (hkey x hx).symm)
  have hmany : 1 < (m :: n :: ms).length := by simp
  rw [hgroup, decide_eq_true hmany, Bool.and_true]

/-- **Each crowded marker brings two backslashes** to the literal of its group. -/
theorem backslashes_joinGroup (operator : Operator) (hkey : ∀ m ∈ g, m.key = k) :
    backslashes (joinGroup operator (k, g)).render
      = backslashes (joinGroup operator (k, g.map Matcher.emptied)).render
        + 2 * (crowded g).length := by
  rcases g with _ | ⟨m, _ | ⟨n, ms⟩⟩
  · rfl
  · have hnone : crowded [m] = [] := by simp [crowded, membersOf]
    rw [hnone, List.map_singleton, render_joinGroup_single]
    rfl
  · rw [crowded_of_many hkey, List.map_cons, List.map_cons, render_joinGroup_many,
      render_joinGroup_many, backslashes_append, backslashes_append (k ++ operator.symbol),
      backslashes_alternation, backslashes_alternation, ← List.map_cons, ← List.map_cons,
      backslashes_values, Nat.add_assoc]

/-- A group without crowded markers is written as that of the empty values. -/
theorem render_joinGroup_of_uncrowded (operator : Operator) (hkey : ∀ m ∈ g, m.key = k)
    (h : crowded g = []) : (joinGroup operator (k, g.map Matcher.emptied)).render
      = (joinGroup operator (k, g)).render := by
  rcases g with _ | ⟨m, _ | ⟨n, ms⟩⟩
  · rfl
  · exact render_joinGroup_single m
  · rw [crowded_of_many hkey, List.filter_eq_nil_iff] at h
    have hsame : (m :: n :: ms).map Matcher.emptied = m :: n :: ms := by
      refine (List.map_congr_left fun x hx => ?_).trans (List.map_id _)
      have hx := h x hx
      rw [decide_eq_true_iff] at hx
      rw [Matcher.emptied, unmarked_of_ne hx]
      rfl
    rw [hsame]

theorem joined_emptied (operator : Operator) (ms : List Matcher) :
    joined operator (ms.map Matcher.emptied) = (keysOf Matcher.key ms).map
      fun k => joinGroup operator (k, (membersOf Matcher.key ms k).map Matcher.emptied) := by
  rw [joined_eq, keysOf_map]
  exact List.map_congr_left fun k _ => by rw [membersOf_map]; rfl

/-- **Each crowded marker brings two backslashes** to the matchers of its class. -/
theorem backslashes_joined (operator : Operator) (ms : List Matcher) :
    (((joined operator ms).map Matcher.render).map backslashes).sum
      = (((joined operator (ms.map Matcher.emptied)).map Matcher.render).map backslashes).sum
        + 2 * (crowded ms).length := by
  have hgroup : ∀ k ∈ keysOf Matcher.key ms,
      backslashes (joinGroup operator (k, membersOf Matcher.key ms k)).render
        = backslashes
            (joinGroup operator (k, (membersOf Matcher.key ms k).map Matcher.emptied)).render
          + 2 * (crowded (membersOf Matcher.key ms k)).length := fun k _ =>
    backslashes_joinGroup operator fun m hm => (mem_membersOf.mp hm).2
  rw [joined_emptied, joined_eq, length_crowded, ← List.sum_map_mul_left]
  simp only [List.map_map]
  rw [← List.sum_map_add]
  exact congrArg List.sum (List.map_congr_left hgroup)

theorem render_joined_of_uncrowded (operator : Operator) (h : crowded ms = []) :
    (joined operator (ms.map Matcher.emptied)).map Matcher.render
      = (joined operator ms).map Matcher.render := by
  rw [joined_emptied, joined_eq, List.map_map, List.map_map]
  refine List.map_congr_left fun k _ => ?_
  refine render_joinGroup_of_uncrowded operator (fun m hm => (mem_membersOf.mp hm).2) ?_
  rw [← membersOf_crowded, h]
  rfl

end Class

end Join

/-! ### Selectors -/

theorem inclusive_emptied (ms : List Matcher) :
    inclusive (ms.map Matcher.emptied) = (inclusive ms).map Matcher.emptied :=
  List.filter_map

theorem exclusive_emptied (ms : List Matcher) :
    exclusive (ms.map Matcher.emptied) = (exclusive ms).map Matcher.emptied :=
  List.filter_map

theorem map_condition_emptied (ms : List Matcher) :
    (ms.map Matcher.emptied).map Matcher.condition = ms.map Matcher.condition := by
  rw [List.map_map]
  exact List.map_congr_left fun m _ => m.condition_emptied

theorem map_render_exclusiveByKey_emptied (ms : List Matcher) :
    (exclusiveByKey (ms.map Matcher.emptied)).map Matcher.render
      = (exclusiveByKey ms).map Matcher.render := by
  have hconditions : (exclusive (ms.map Matcher.emptied)).map Matcher.condition
      = (exclusive ms).map Matcher.condition :=
    Stage.map_condition_filter_congr (map_condition_emptied ms) Symbol.isExclusive
  rw [← Matcher.map_text_condition, ← Matcher.map_text_condition,
    Stage.map_condition_exclusiveByKey, Stage.map_condition_exclusiveByKey, hconditions]

namespace Selector

variable {ms : List Matcher}

theorem pieces_eq_joined (ms : List Matcher) :
    pieces ms = (Join.joined .matching (inclusive ms)).map Matcher.render
      ++ (exclusiveByKey ms).map Matcher.render := by
  rw [pieces, Join.map_renderPositive, Groups.exclusive_eq]
  rfl

theorem backslashes_body_emptied (ms : List Matcher) :
    backslashes (body ms) = backslashes (body (ms.map Matcher.emptied))
      + 2 * (crowded (inclusive ms)).length := by
  rw [backslashes_body, backslashes_body, pieces_eq_joined, pieces_eq_joined, inclusive_emptied,
    map_render_exclusiveByKey_emptied, List.map_append, List.map_append, List.sum_append,
    List.sum_append, Join.backslashes_joined]
  omega

theorem body_emptied (h : crowded (inclusive ms) = []) :
    body (ms.map Matcher.emptied) = body ms := by
  have hpieces : pieces (ms.map Matcher.emptied) = pieces ms := by
    rw [pieces_eq_joined, pieces_eq_joined, inclusive_emptied, map_render_exclusiveByKey_emptied,
      Join.render_joined_of_uncrowded _ h]
  rw [← String.toList_inj, toList_body, toList_body, hpieces]

theorem backslashes_join_emptied (ms : List Matcher) :
    backslashes (ofMatchers (Join.join ms))
      = backslashes (ofMatchers (Join.join (ms.map Matcher.emptied)))
        + 2 * ((crowded (inclusive ms)).length + (crowded (exclusive ms)).length) := by
  rw [backslashes_ofMatchers, backslashes_ofMatchers, Join.join_eq_joined, Join.join_eq_joined,
    inclusive_emptied, exclusive_emptied]
  simp only [List.map_append, List.sum_append]
  rw [Join.backslashes_joined .matching (inclusive ms),
    Join.backslashes_joined .notMatching (exclusive ms)]
  omega

theorem ofMatchers_congr {ns : List Matcher} (h : ms.map Matcher.render = ns.map Matcher.render) :
    ofMatchers ms = ofMatchers ns := by
  have hnil : ms = [] ↔ ns = [] := by
    rw [← List.map_eq_nil_iff (f := Matcher.render), h, List.map_eq_nil_iff]
  simp only [ofMatchers, h, hnil]

theorem join_emptied (h : crowded (inclusive ms) = []) (h' : crowded (exclusive ms) = []) :
    ofMatchers (Join.join (ms.map Matcher.emptied)) = ofMatchers (Join.join ms) := by
  refine ofMatchers_congr ?_
  rw [Join.join_eq_joined, Join.join_eq_joined, inclusive_emptied, exclusive_emptied,
    List.map_append, List.map_append, Join.render_joined_of_uncrowded _ h,
    Join.render_joined_of_uncrowded _ h']

end Selector

/-- **Where the marker is the empty value.**  In stages it always is, whether it
stands for itself or in an envelope.  In a selector, compiled or joined, it is if no
marker stands on its key with others of its class; each one that does has its two
quotes escaped, and no other has. -/
theorem unchanged_iff_uncrowded (fs : List Filter) (es : List FieldEntry) :
    Stage.metadata (matchers (fs.map Filter.emptied)) = Stage.metadata (matchers fs)
    ∧ ((∀ e ∈ es, e.matcher.isNumeric = false) →
      Stage.fields ((es.map FieldEntry.emptied).map FieldEntry.matcher)
          = Stage.fields (es.map FieldEntry.matcher)
        ∧ Stage.fields ((es.map FieldEntry.matcher).map Matcher.emptied)
          = Stage.fields (es.map FieldEntry.matcher))
    ∧ (Selector.body (matchers (fs.map Filter.emptied)) = Selector.body (matchers fs)
      ↔ crowded (inclusive (matchers fs)) = [])
    ∧ backslashes (Selector.body (matchers fs))
      = backslashes (Selector.body (matchers (fs.map Filter.emptied)))
        + 2 * (crowded (inclusive (matchers fs))).length
    ∧ (Selector.ofMatchers (matchers (Join.joinFilters (fs.map Filter.emptied)))
        = Selector.ofMatchers (matchers (Join.joinFilters fs))
      ↔ crowded (inclusive (matchers fs)) = [] ∧ crowded (exclusive (matchers fs)) = [])
    ∧ backslashes (Selector.ofMatchers (matchers (Join.joinFilters fs)))
      = backslashes (Selector.ofMatchers (matchers (Join.joinFilters (fs.map Filter.emptied))))
        + 2 * ((crowded (inclusive (matchers fs))).length
          + (crowded (exclusive (matchers fs))).length) := by
  have hmatchers : matchers (fs.map Filter.emptied) = (matchers fs).map Matcher.emptied := by
    rw [matchers, matchers, List.map_map, List.map_map]
    rfl
  have hentries : ((es.map FieldEntry.emptied).map FieldEntry.matcher).map Matcher.condition
      = (es.map FieldEntry.matcher).map Matcher.condition := by
    simp only [List.map_map]
    exact List.map_congr_left fun e _ => e.condition_emptied
  have hbody := Selector.backslashes_body_emptied (matchers fs)
  have hjoin := Selector.backslashes_join_emptied (matchers fs)
  simp only [Join.joinFilters, Join.matchers_toFilter, hmatchers]
  refine ⟨Stage.metadata_congr (map_condition_emptied _), fun hnumeric => ?_, ⟨fun h => ?_,
    Selector.body_emptied⟩, hbody, ⟨fun h => ?_, fun h => Selector.join_emptied h.1 h.2⟩, hjoin⟩
  · have hms : ∀ m ∈ es.map FieldEntry.matcher, m.isNumeric = false :=
      List.forall_mem_map.mpr hnumeric
    exact ⟨(Stage.fields_congr hms hentries.symm).symm,
      (Stage.fields_congr hms (map_condition_emptied _).symm).symm⟩
  · -- a crowded marker would show in the backslashes
    rw [h] at hbody
    exact List.eq_nil_of_length_eq_zero (by omega)
  · rw [h] at hjoin
    exact ⟨List.eq_nil_of_length_eq_zero (by omega), List.eq_nil_of_length_eq_zero (by omega)⟩

/-- Markers on their own in a selector, and in fields as they are, in an envelope and
out of it. -/
theorem unchanged_iff_uncrowded_lone :
    Selector.body (matchers ([⟨⟨"host", "=", emptyMarker⟩, none, none⟩,
        ⟨⟨"level", "!=", emptyMarker⟩, none, none⟩, ⟨⟨"host", "!=", "a"⟩, none, none⟩,
        ⟨⟨"level", "!~", emptyMarker⟩, none, none⟩].map Filter.emptied))
      = "host=\"\", level!=\"\", level!~\"\", host!=\"a\""
    ∧ Stage.fields (([.enveloped ⟨⟨"user", "=", emptyMarker⟩, none, none⟩,
        .enveloped ⟨⟨"pod", "!=", "\x7b\"value\":\"\\\"\\\"\"\x7d"⟩, none, none⟩,
        .decoded ⟨"user", "=~", ⟨emptyMarker, .json⟩⟩].map FieldEntry.emptied).map
          FieldEntry.matcher)
      = "| user=\"\" or user=~\"\" | pod!=\"\"" := by
  obtain ⟨-, hfields, hbody, -⟩ := unchanged_iff_uncrowded
    [⟨⟨"host", "=", emptyMarker⟩, none, none⟩, ⟨⟨"level", "!=", emptyMarker⟩, none, none⟩,
      ⟨⟨"host", "!=", "a"⟩, none, none⟩, ⟨⟨"level", "!~", emptyMarker⟩, none, none⟩]
    [.enveloped ⟨⟨"user", "=", emptyMarker⟩, none, none⟩,
      .enveloped ⟨⟨"pod", "!=", "\x7b\"value\":\"\\\"\\\"\"\x7d"⟩, none, none⟩,
      .decoded ⟨"user", "=~", ⟨emptyMarker, .json⟩⟩]
  exact ⟨(hbody.mpr (by decide)).trans (by decide),
    (hfields (by decide)).1.trans (by decide +kernel)⟩

/-- A marker that is put together with another value of its key: its quotes are
escaped, as if a value of two quotes were asked for. -/
theorem changed_of_crowded_marker :
    Selector.body (matchers [⟨⟨"host", "=", emptyMarker⟩, none, none⟩,
        ⟨⟨"host", "=", "a"⟩, none, none⟩]) = "host=~\"\\\"\\\"|a\""
    ∧ Selector.body (matchers ([⟨⟨"host", "=", emptyMarker⟩, none, none⟩,
        ⟨⟨"host", "=", "a"⟩, none, none⟩].map Filter.emptied)) = "host=~\"|a\""
    ∧ Selector.ofMatchers (matchers (Join.joinFilters [⟨⟨"host", "!=", emptyMarker⟩, none, none⟩,
        ⟨⟨"host", "!=", "a"⟩, none, none⟩])) = "\x7bhost!~\"\\\"\\\"|a\"\x7d"
    ∧ Selector.ofMatchers (matchers (Join.joinFilters ([⟨⟨"host", "!=", emptyMarker⟩, none, none⟩,
        ⟨⟨"host", "!=", "a"⟩, none, none⟩].map Filter.emptied))) = "\x7bhost!~\"|a\"\x7d" := by
  decide

end LogQuery
