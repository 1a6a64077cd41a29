import LogQuery.Text.Split
import Mathlib.Data.List.Basic
/-!
# Alternations and their alternatives

An alternation is a list of texts with bars between them, and the alternatives
are the texts between the bars.  Putting alternations together puts their
alternatives together (`alternatives_alternation`), the empty ones too.
-/

namespace LogQuery.Text

/-- What a separated text is after its first part. -/
theorem intercalate_cons (sep p : String) (ps : List String) :
    sep.intercalate (p :: ps) = p ++ if ps = [] then "" else sep ++ sep.intercalate ps := by
  cases ps with
  | nil => rw [String.intercalate_singleton, if_pos rfl, String.append_empty]
  | cons q ps =>
    rw [String.intercalate_cons_cons, if_neg (List.cons_ne_nil q ps), String.append_assoc]

theorem alternation_singleton (p : String) : alternation [p] = p := String.intercalate_singleton

theorem alternation_cons_cons (p q : String) (parts : List String) :
    alternation (p :: q :: parts) = p ++ "|" ++ alternation (q :: parts) :=
  String.intercalate_cons_cons

/-- A bar separates the alternatives before it from those after it. -/
theorem alternatives_append_bar (s t : String) :
    alternatives (s ++ "|" ++ t) = alternatives s ++ alternatives t := by
  have hbar : (s ++ "|" ++ t).toList = s.toList ++ '|' :: t.toList := by
    rw [String.toList_append, String.toList_append, List.append_assoc]
    rfl
  rw [alternatives, hbar, List.splitOn_append_cons_self, List.map_append]
  rfl

theorem alternatives_of_not_mem {s : String} (h : '|' ∉ s.toList) : alternatives s = [s] := by
  rw [alternatives, List.splitOn_eq_singleton h, List.map_singleton, String.ofList_toList]

/-- **The alternatives of an alternation** are those of its parts. -/
theorem alternatives_alternation {parts : List String} (h : parts ≠ []) :
    alternatives (alternation parts) = parts.flatMap alternatives := by
  induction parts with
  | nil => exact absurd rfl h
  | cons p parts ih =>
    cases parts with
    | nil => rw [alternation_singleton, List.flatMap_singleton]
    | cons q parts =>
      rw [alternation_cons_cons, alternatives_append_bar, ih (List.cons_ne_nil q parts),
        ← List.flatMap_cons]

/-- Between two parts there is a bar. -/
theorem bar_mem_alternation (p q : String) (parts : List String) :
    '|' ∈ (alternation (p :: q :: parts)).toList := by
  rw [alternation_cons_cons, String.toList_append, String.toList_append]
  exact List.mem_append_left _ (List.mem_append_right _ List.mem_cons_self)

theorem mem_alternation {parts : List String} {c : Char} (h : c ∈ (alternation parts).toList) :
    c = '|' ∨ ∃ p ∈ parts, c ∈ p.toList := by
  induction parts with
  | nil => exact absurd h List.not_mem_nil
  | cons p parts ih =>
    cases parts with
    | nil =>
      rw [alternation_singleton] at h
      exact Or.inr ⟨p, List.mem_cons_self, h⟩
    | cons q parts =>
      rw [alternation_cons_cons, String.toList_append, String.toList_append, List.mem_append,
        List.mem_append] at h
      obtain (h | h) | h := h
      · exact Or.inr ⟨p, List.mem_cons_self, h⟩
      · exact Or.inl (List.mem_singleton.mp h)
      · obtain hbar | ⟨r, hr, hc⟩ := ih h
        · exact Or.inl hbar
        · exact Or.inr ⟨r, List.mem_cons_of_mem p hr, hc⟩

/-- An alternation has every character of its parts. -/
theorem mem_alternation_of_mem {parts : List String} {p : String} (hp : p ∈ parts) {c : Char}
    (hc : c ∈ p.toList) : c ∈ (alternation parts).toList := by
  induction parts with
  | nil => exact absurd hp List.not_mem_nil
  | cons q parts ih =>
    rw [alternation, intercalate_cons, String.toList_append, List.mem_append]
    rcases List.mem_cons.mp hp with rfl | hp
    · exact Or.inl hc
    · rw [if_neg (List.ne_nil_of_mem hp), String.toList_append, List.mem_append]
      exact Or.inr (Or.inr (ih hp))

/-- Bars apart, an alternation has the characters of its parts. -/
theorem not_mem_alternation {parts : List String} {c : Char} (hbar : c ≠ '|') :
    c ∉ (alternation parts).toList ↔ ∀ p ∈ parts, c ∉ p.toList := by
  constructor
  · exact fun h p hp hc => h (mem_alternation_of_mem hp hc)
  · intro h hc
    rcases mem_alternation hc with hc | ⟨p, hp, hc⟩
    · exact hbar hc
    · exact h p hp hc

end LogQuery.Text
