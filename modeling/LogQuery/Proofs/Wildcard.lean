import LogQuery.Wildcard
import Mathlib.Data.List.Infix
/-!
# Which searches come back

Wrapping leaves alone what begins with the opening, and the text that matches
anything; all else gets an opening and a closing, which unwrapping takes off.  So
wrapping twice is wrapping once, and a search comes back unless it is wrapped
itself (`wrap_wrap_and_unwrap_wrap_iff`).  The opening ends as the closing does:
the opening alone is the one text that is wrapped with the two overlapping
(`isWrapped_iff`).
-/

namespace LogQuery.Wildcard

/-- The text begins with the opening and ends with the closing; the two may share
characters. -/
def IsWrapped (s : String) : Prop := opening.toList <+: s.toList ∧ closing.toList <:+ s.toList

instance (s : String) : Decidable (IsWrapped s) :=
  inferInstanceAs (Decidable (_ ∧ _))

/-! ### The parts of a wrapped text -/

/-- Two characters, or more, are left after the opening, or none. -/
theorem isWrapped_iff {s : String} :
    IsWrapped s ↔ s = opening ∨ ∃ t, s = opening ++ t ++ closing := by
  constructor
  · rintro ⟨⟨cs, hcs⟩, hclosing⟩
    have hrest : cs <:+ s.toList := hcs ▸ List.suffix_append _ _
    by_cases hlong : closing.toList.length ≤ cs.length
    · obtain ⟨ts, hts⟩ := List.suffix_of_suffix_length_le hclosing hrest hlong
      refine .inr ⟨String.ofList ts, ?_⟩
      rw [← String.toList_inj, ← hcs, ← hts, String.toList_append, String.toList_append,
        String.toList_ofList, List.append_assoc]
    · cases cs with
      | nil =>
        rw [List.append_nil, String.toList_inj] at hcs
        exact .inl hcs.symm
      | cons c cs =>
        -- one character is left: the text would end with the star of the opening and it
        have hnil : cs = [] := by
          cases cs with
          | nil => rfl
          | cons d cs => exact absurd (Nat.le_add_left 2 cs.length) hlong
        subst hnil
        rw [← hcs, List.suffix_iff_eq_drop] at hclosing
        exact absurd (List.cons.inj hclosing).1 (by decide)
  · rintro (rfl | ⟨t, rfl⟩)
    · decide
    · rw [IsWrapped, String.toList_append, String.toList_append]
      exact ⟨(List.prefix_append _ _).trans (List.prefix_append _ _), List.suffix_append _ _⟩

/-! ### Wrapping -/

theorem wrap_of_opening {s : String} (h : opening.toList <+: s.toList) : wrap s = s := by
  rw [wrap, if_pos (List.isPrefixOf_iff_prefix.mpr h), ite_self]

theorem wrap_of_plain {s : String} (hany : s ≠ anything) (h : ¬opening.toList <+: s.toList) :
    wrap s = opening ++ s ++ closing := by
  rw [wrap, if_neg hany, if_neg (mt List.isPrefixOf_iff_prefix.mp h)]

theorem wrap_wrap (s : String) : wrap (wrap s) = wrap s := by
  by_cases hany : s = anything
  · subst hany
    rfl
  · by_cases hopening : opening.toList <+: s.toList
    · rw [wrap_of_opening hopening, wrap_of_opening hopening]
    · rw [wrap_of_plain hany hopening]
      exact wrap_of_opening (isWrapped_iff.mpr (.inr ⟨s, rfl⟩)).1

/-! ### Unwrapping -/

theorem unwrap_of_not_isWrapped {s : String} (h : ¬IsWrapped s) : unwrap s = s := by
  refine if_neg fun hboth => h ?_
  rw [Bool.and_eq_true, List.isPrefixOf_iff_prefix, List.isSuffixOf_iff_suffix] at hboth
  exact hboth

theorem unwrap_of_isWrapped {s : String} (h : IsWrapped s) :
    (unwrap s).toList = (s.toList.take (s.toList.length - 2)).drop 6 := by
  have hboth : (opening.toList.isPrefixOf s.toList
      && closing.toList.isSuffixOf s.toList) = true := by
    rw [Bool.and_eq_true, List.isPrefixOf_iff_prefix, List.isSuffixOf_iff_suffix]
    exact h
  rw [unwrap, if_pos hboth, String.toList_ofList]
  rfl

/-- **The opening and the closing are taken off.** -/
theorem unwrap_wrapped (s : String) : unwrap (opening ++ s ++ closing) = s := by
  have hchars : (opening ++ s ++ closing).toList
      = opening.toList ++ (s.toList ++ closing.toList) := by
    rw [String.toList_append, String.toList_append, List.append_assoc]
  have hlength : (opening ++ s ++ closing).toList.length - 2
      = opening.toList.length + s.toList.length := by
    rw [hchars, List.length_append, List.length_append]
    rfl
  rw [← String.toList_inj, unwrap_of_isWrapped (isWrapped_iff.mpr (.inr ⟨s, rfl⟩)), hlength, hchars,
    List.take_length_add_append, List.take_left]
  exact List.drop_left' rfl

/-- Of a wrapped text something is taken off. -/
theorem unwrap_ne_of_isWrapped {s : String} (h : IsWrapped s) : unwrap s ≠ s := by
  rcases isWrapped_iff.mp h with rfl | ⟨t, rfl⟩
  · decide
  · rw [unwrap_wrapped]
    intro hsame
    have hlength := congrArg String.length hsame
    rw [String.length_append, String.length_append] at hlength
    have : opening.length = 6 := rfl
    omega

/-- **Wrapping is idempotent, and a search comes back if and only if it was not
wrapped itself.**  Wrapped are the opening alone and what has the opening before and
the closing behind it. -/
theorem wrap_wrap_and_unwrap_wrap_iff (s : String) :
    wrap (wrap s) = wrap s ∧ (unwrap (wrap s) = s ↔ ¬IsWrapped s)
      ∧ (IsWrapped s ↔ s = opening ∨ ∃ t, s = opening ++ t ++ closing) := by
  refine ⟨wrap_wrap s, ⟨fun h hwrapped => ?_, fun h => ?_⟩, isWrapped_iff⟩
  · rw [wrap_of_opening hwrapped.1] at h
    exact unwrap_ne_of_isWrapped hwrapped h
  · by_cases hany : s = anything
    · subst hany
      rfl
    · by_cases hopening : opening.toList <+: s.toList
      · rw [wrap_of_opening hopening, unwrap_of_not_isWrapped h]
      · rw [wrap_of_plain hany hopening, unwrap_wrapped]

end LogQuery.Wildcard
