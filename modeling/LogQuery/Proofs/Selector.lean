import LogQuery.Selector
import LogQuery.Proofs.Grouping
import LogQuery.Proofs.Literal
import Mathlib.Data.List.TakeWhile
/-!
# The body of a selector

The body is put together with a separator between its two classes, also where
one of them is empty, and then trimmed.  Every matcher ends with a quote, which
is no padding; so the trimming takes what was put there too much, and from the
matchers themselves at most the padding before the first key (`toList_body`).
-/

namespace LogQuery

namespace Text

/-- What ends with a character that is not in the class still does when its front is
trimmed. -/
theorem exists_dropWhile_concat {p : Char → Bool} {q : Char} (hq : p q = false)
    (ys : List Char) : ∃ ys', (ys ++ [q]).dropWhile p = ys' ++ [q] := by
  rw [List.dropWhile_append]
  by_cases hempty : (ys.dropWhile p).isEmpty = true
  · refine ⟨[], ?_⟩
    rw [if_pos hempty, List.dropWhile_cons_of_neg (by rw [hq]; exact Bool.false_ne_true)]
    rfl
  · exact ⟨ys.dropWhile p, if_neg hempty⟩

/-- **Trimming stops at the last character that is not in the class**, and at the
first one. -/
theorem trim_padded {p : Char → Bool} {xs ys zs : List Char} {q : Char}
    (hx : ∀ c ∈ xs, p c = true) (hq : p q = false) (hz : ∀ c ∈ zs, p c = true) :
    trim p (xs ++ ((ys ++ [q]) ++ zs)) = (ys ++ [q]).dropWhile p := by
  obtain ⟨ys', hys⟩ := exists_dropWhile_concat hq ys
  have hleft : (xs ++ ((ys ++ [q]) ++ zs)).dropWhile p = ys' ++ [q] ++ zs := by
    rw [List.dropWhile_append_of_pos hx, List.dropWhile_append, hys, if_neg (by simp)]
  have hright : (ys' ++ [q] ++ zs).reverse.dropWhile p = q :: ys'.reverse := by
    rw [List.reverse_append, List.dropWhile_append_of_pos fun c hc => hz c (List.mem_reverse.mp hc),
      List.reverse_append, List.reverse_singleton, List.singleton_append,
      List.dropWhile_cons_of_neg (by rw [hq]; exact Bool.false_ne_true)]
  rw [trim, hleft, hright, hys, List.reverse_cons, List.reverse_reverse]

end Text

/-! ### Matchers end with a quote -/

def EndsQuoted (s : String) : Prop := ∃ cs, s.toList = cs ++ ['"']

theorem EndsQuoted.append {t : String} (h : EndsQuoted t) (s : String) : EndsQuoted (s ++ t) := by
  obtain ⟨cs, hcs⟩ := h
  exact ⟨s.toList ++ cs, by rw [String.toList_append, hcs, List.append_assoc]⟩

theorem endsQuoted_quote (s : String) : EndsQuoted (Literal.quote s) :=
  ⟨'"' :: Literal.escapeChars s.toList, Literal.toList_quote s⟩

theorem endsQuoted_emptyMarker : EndsQuoted emptyMarker := ⟨['"'], rfl⟩

theorem EndsQuoted.intercalate {sep : String} {ps : List String} (hne : ps ≠ [])
    (h : ∀ p ∈ ps, EndsQuoted p) : EndsQuoted (sep.intercalate ps) := by
  induction ps with
  | nil => exact absurd rfl hne
  | cons p ps ih =>
    cases ps with
    | nil =>
      rw [String.intercalate_singleton]
      exact h p List.mem_cons_self
    | cons q qs =>
      rw [String.intercalate_cons_cons]
      exact (ih (List.cons_ne_nil q qs) fun r hr => h r (List.mem_cons_of_mem p hr)).append _

namespace Matcher

theorem endsQuoted_render (m : Matcher) : EndsQuoted m.render := by
  by_cases hv : m.value = emptyMarker
  · rw [render, if_pos hv, hv]
    exact endsQuoted_emptyMarker.append _
  · rw [render, if_neg hv]
    exact (endsQuoted_quote m.value).append _

/-- The bars of an alternation need no escape, so that it is one literal. -/
theorem renderAlternation_eq (key operator : String) (values : List String) :
    renderAlternation key operator values
      = key ++ operator ++ Literal.quote (Text.alternation values) := by
  rw [renderAlternation, ← Literal.escape_alternation, Literal.quote, ← String.append_assoc,
    ← String.append_assoc]

end Matcher

namespace Selector

/-- The matchers of a selector as they are written. -/
def pieces (ms : List Matcher) : List String :=
  (Groups.ofMatchers ms).positive.map renderPositive
    ++ (Groups.ofMatchers ms).exclusive.map Matcher.render

theorem endsQuoted_renderPositive (g : Group) : EndsQuoted (renderPositive g) := by
  have hmany : ∀ values, EndsQuoted
      (Matcher.renderAlternation g.1 Operator.matching.symbol values) := by
    intro values
    rw [Matcher.renderAlternation_eq]
    exact (endsQuoted_quote _).append _
  obtain ⟨k, ms⟩ := g
  cases ms with
  | nil => exact hmany _
  | cons m ms =>
    cases ms with
    | nil => exact m.endsQuoted_render
    | cons n ms => exact hmany _

theorem endsQuoted_of_mem_pieces {ms : List Matcher} {p : String} (h : p ∈ pieces ms) :
    EndsQuoted p := by
  rw [pieces, List.mem_append, List.mem_map, List.mem_map] at h
  obtain ⟨g, -, rfl⟩ | ⟨m, -, rfl⟩ := h
  · exact endsQuoted_renderPositive g
  · exact m.endsQuoted_render

/-! ### Trimming -/

theorem isPadding_of_mem_separator : ∀ c ∈ [',', ' '], isPadding c = true :=
  List.all_eq_true.mp rfl

/-- Padding around a text that ends with a quote is trimmed, and in the text
itself only where it begins. -/
theorem trim_endsQuoted {s : String} (h : EndsQuoted s) {xs zs : List Char}
    (hx : ∀ c ∈ xs, isPadding c = true) (hz : ∀ c ∈ zs, isPadding c = true) :
    Text.trim isPadding (xs ++ (s.toList ++ zs)) = s.toList.dropWhile isPadding := by
  obtain ⟨cs, hcs⟩ := h
  rw [hcs]
  exact Text.trim_padded hx rfl hz

/-- **The body is the matchers with separators between them**, without the
padding before the first key. -/
theorem toList_body (ms : List Matcher) :
    (body ms).toList = (", ".intercalate (pieces ms)).toList.dropWhile isPadding := by
  have hnil : ∀ c ∈ ([] : List Char), isPadding c = true := fun c hc =>
    absurd hc List.not_mem_nil
  have hsep : (", " : String).toList = [',', ' '] := rfl
  have hquoted : pieces ms ≠ [] → EndsQuoted (", ".intercalate (pieces ms)) := fun hne =>
    .intercalate hne fun p hp => endsQuoted_of_mem_pieces hp
  rw [body, String.toList_ofList]
  rw [pieces] at hquoted ⊢
  generalize (Groups.ofMatchers ms).positive.map renderPositive = ps at hquoted ⊢
  generalize (Groups.ofMatchers ms).exclusive.map Matcher.render = ns at hquoted ⊢
  rw [String.toList_append, String.toList_append, hsep]
  -- the separator is left over in front, at the end, or nowhere
  cases ps with
  | nil =>
    cases ns with
    | nil => rfl
    | cons n ns =>
      have htrim := trim_endsQuoted (hquoted (List.cons_ne_nil n ns)) isPadding_of_mem_separator
        hnil
      rw [List.append_nil] at htrim
      exact htrim
  | cons p ps =>
    cases ns with
    | nil =>
      rw [List.append_nil] at hquoted ⊢
      have htrim := trim_endsQuoted (hquoted (List.cons_ne_nil p ps)) hnil
        isPadding_of_mem_separator
      rw [String.intercalate_nil, String.toList_empty, List.append_nil]
      exact htrim
    | cons n ns =>
      have htrim := trim_endsQuoted (hquoted (by simp)) hnil hnil
      rw [List.append_nil] at htrim
      rw [String.intercalate_append_of_ne_nil (List.cons_ne_nil p ps) (List.cons_ne_nil n ns),
        String.toList_append, String.toList_append, hsep] at htrim ⊢
      exact htrim

theorem pieces_eq_nil {ms : List Matcher} : pieces ms = [] ↔ ms = [] := by
  constructor
  · intro h
    rw [pieces, List.append_eq_nil_iff, List.map_eq_nil_iff, List.map_eq_nil_iff] at h
    exact Groups.eq_nil_of_no_group h.1 h.2
  · rintro rfl
    rfl

/-- Only without matchers is there nothing in the body. -/
theorem body_eq_empty {ms : List Matcher} : body ms = "" ↔ ms = [] := by
  constructor
  · intro h
    by_contra hne
    obtain ⟨cs, hcs⟩ : EndsQuoted (", ".intercalate (pieces ms)) :=
      .intercalate (fun hnil => hne (pieces_eq_nil.mp hnil)) fun p hp => endsQuoted_of_mem_pieces hp
    have hbody := toList_body ms
    rw [h, hcs, String.toList_empty] at hbody
    have hquote := List.dropWhile_eq_nil_iff.mp hbody.symm '"' (by simp)
    exact absurd hquote (by decide)
  · rintro rfl
    rfl

/-! ### Where a body begins -/

def Unpadded (s : String) : Prop := ∀ c ∈ s.toList.head?, isPadding c = false

instance (s : String) : Decidable (Unpadded s) :=
  decidable_of_iff (s.toList.head?.all (fun c => !isPadding c) = true) <| by
    simp only [Unpadded, Option.all_eq_true, Bool.not_eq_true', Option.mem_def]

theorem Unpadded.append {s t : String} (hs : Unpadded s) (ht : Unpadded t) :
    Unpadded (s ++ t) := by
  intro c hc
  rw [String.toList_append] at hc
  cases hl : s.toList with
  | nil =>
    rw [hl] at hc
    exact ht c hc
  | cons d ds =>
    rw [hl] at hc
    exact hs c (by rw [hl]; exact hc)

theorem unpadded_quote (s : String) : Unpadded (Literal.quote s) := by
  intro c hc
  rw [Literal.toList_quote] at hc
  exact Option.some.inj hc ▸ rfl

theorem unpadded_render {m : Matcher} (h : Unpadded (m.key ++ m.operator)) : Unpadded m.render := by
  by_cases hv : m.value = emptyMarker
  · rw [Matcher.render, if_pos hv, hv]
    exact h.append fun c hc => Option.some.inj hc ▸ rfl
  · rw [Matcher.render, if_neg hv]
    exact h.append (unpadded_quote m.value)

/-- Pieces are not empty, so that the first one decides how the body begins. -/
theorem unpadded_intercalate {ps : List String} (hq : ∀ p ∈ ps, EndsQuoted p)
    (h : ∀ p ∈ ps.head?, Unpadded p) : Unpadded (", ".intercalate ps) := by
  cases ps with
  | nil => exact fun c hc => absurd hc (Option.not_mem_none c)
  | cons p ps =>
    have hp := h p rfl
    cases ps with
    | nil =>
      rw [String.intercalate_singleton]
      exact hp
    | cons q qs =>
      obtain ⟨cs, hcs⟩ := hq p List.mem_cons_self
      intro c hc
      rw [String.intercalate_cons_cons, String.toList_append, String.toList_append] at hc
      refine hp c ?_
      rw [hcs] at hc ⊢
      cases cs with
      | nil => exact hc
      | cons d ds => exact hc

/-- **Nothing is trimmed off the matchers** where the first one does not begin
with padding. -/
theorem body_eq {ms : List Matcher} (h : ∀ p ∈ (pieces ms).head?, Unpadded p) :
    body ms = ", ".intercalate (pieces ms) := by
  have hbegin := unpadded_intercalate (fun p hp => endsQuoted_of_mem_pieces hp) h
  rw [← String.toList_inj, toList_body]
  cases hl : (", ".intercalate (pieces ms)).toList with
  | nil => rfl
  | cons c cs =>
    have hc : isPadding c = false := hbegin c (by rw [hl]; rfl)
    rw [List.dropWhile_cons_of_neg (by rw [hc]; exact Bool.false_ne_true)]

end Selector

end LogQuery
